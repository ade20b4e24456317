import GuardElision.Proofs.Flow.Walk
import Mathlib.Logic.Relation

/-!
# What stands in the way

Dominance and post-dominance are one notion. A route starts at a source, goes on by steps and
remembers what it has passed; something stands in the way of a goal when the goal can be reached and
all routes to it pass the thing. From the entry along the jumps this is dominance, from the exits
against the jumps it is post-dominance.

Of two things in the way of one goal, the one that some route passes last has the other one in its
own way: otherwise the other one could be avoided. So what stands in the way of a goal is in line,
and whatever else is in the way of the goal is in the way of the last in the line, the closest one.
From the goal, the links to the closest lead through the whole line.
-/

namespace GuardElision

section InTheWay

variable {α : Type} {source : α → Prop} {step : α → α → Prop}

/-- A route from a source, with all it has passed, the latest in front. -/
inductive Route (source : α → Prop) (step : α → α → Prop) : List α → α → Prop where
  | start {a : α} : source a → Route source step [a] a
  | extend {a b : α} {passed : List α} : Route source step passed a → step a b →
      Route source step (b :: passed) b

/-- A goal can be reached, and all routes to it pass `a`. -/
def InTheWay (source : α → Prop) (step : α → α → Prop) (a goal : α) : Prop :=
  (∃ passed, Route source step passed goal) ∧
    ∀ passed, Route source step passed goal → a ∈ passed

/-- The closest of what stands in the way of a goal: whatever else does stands in its way too. -/
def Closest (source : α → Prop) (step : α → α → Prop) (d goal : α) : Prop :=
  d ≠ goal ∧ InTheWay source step d goal ∧
    ∀ a, a ≠ goal → InTheWay source step a goal → InTheWay source step a d

namespace Route

variable {a b c : α} {passed : List α}

/-- A route passes its goal. -/
theorem goal_mem (h : Route source step passed b) : b ∈ passed := by
  cases h <;> exact List.mem_cons_self

/-- A route can be cut at anything it passes. -/
theorem cut (h : Route source step passed b) (ha : a ∈ passed) :
    ∃ earlier, Route source step earlier a ∧ ∀ x ∈ earlier, x ∈ passed := by
  induction h with
  | start hb =>
    obtain rfl := List.mem_singleton.mp ha
    exact ⟨_, .start hb, fun _ => id⟩
  | extend h hstep ih =>
    rcases List.mem_cons.mp ha with rfl | ha
    · exact ⟨_, .extend h hstep, fun _ => id⟩
    · obtain ⟨earlier, hearlier, hmem⟩ := ih ha
      exact ⟨earlier, hearlier, fun x hx => List.mem_cons_of_mem _ (hmem x hx)⟩

/-- From the last of two things that a route passes, it goes on without the other one, whatever
route leads there. -/
theorem onward (h : Route source step passed b) (ha : a ∈ passed) (hc : c ∈ passed) :
    (∃ rest, c ∉ rest ∧ ∀ earlier, Route source step earlier a →
      Route source step (rest ++ earlier) b) ∨
    ∃ rest, a ∉ rest ∧ ∀ earlier, Route source step earlier c →
      Route source step (rest ++ earlier) b := by
  induction h with
  | start _ =>
    obtain rfl := List.mem_singleton.mp ha
    exact .inl ⟨[], List.not_mem_nil, fun _ => id⟩
  | @extend _ b _ _ hstep ih =>
    by_cases hab : a = b
    · exact .inl ⟨[], List.not_mem_nil, fun _ h => hab ▸ h⟩
    by_cases hcb : c = b
    · exact .inr ⟨[], List.not_mem_nil, fun _ h => hcb ▸ h⟩
    have hbehind := ih (List.mem_of_ne_of_mem hab ha) (List.mem_of_ne_of_mem hcb hc)
    rcases hbehind with ⟨rest, hnot, hrest⟩ | ⟨rest, hnot, hrest⟩
    · exact .inl ⟨b :: rest, List.not_mem_cons_of_ne_of_not_mem hcb hnot,
        fun _ h => .extend (hrest _ h) hstep⟩
    · exact .inr ⟨b :: rest, List.not_mem_cons_of_ne_of_not_mem hab hnot,
        fun _ h => .extend (hrest _ h) hstep⟩

end Route

namespace InTheWay

variable {a b c : α}

theorem trans (hab : InTheWay source step a b) (hbc : InTheWay source step b c) :
    InTheWay source step a c := by
  refine ⟨hbc.1, fun passed h => ?_⟩
  obtain ⟨earlier, hearlier, hmem⟩ := h.cut (hbc.2 passed h)
  exact hmem a (hab.2 earlier hearlier)

/-- Two things in the way of one goal are in the way of each other. -/
theorem total (ha : InTheWay source step a b) (hc : InTheWay source step c b) :
    InTheWay source step a c ∨ InTheWay source step c a := by
  obtain ⟨passed, h⟩ := ha.1
  obtain ⟨toA, hA, _⟩ := h.cut (ha.2 passed h)
  obtain ⟨toC, hC, _⟩ := h.cut (hc.2 passed h)
  rcases h.onward (ha.2 passed h) (hc.2 passed h) with ⟨rest, hnot, hrest⟩ | ⟨rest, hnot, hrest⟩
  · refine .inr ⟨⟨toA, hA⟩, fun earlier hearlier => ?_⟩
    exact (List.mem_append.mp (hc.2 _ (hrest earlier hearlier))).resolve_left hnot
  · refine .inl ⟨⟨toC, hC⟩, fun earlier hearlier => ?_⟩
    exact (List.mem_append.mp (ha.2 _ (hrest earlier hearlier))).resolve_left hnot

/-- Two different things are not in the way of each other. -/
theorem antisymm (hab : InTheWay source step a b) (hba : InTheWay source step b a) : a = b := by
  refine Classical.byContradiction fun hne => ?_
  -- whichever of the two a route comes to first, it has passed the other one before
  have hneither : ∀ {goal passed}, Route source step passed goal → a ∉ passed ∧ b ∉ passed := by
    intro goal passed h
    induction h with
    | @start x hx =>
      constructor
      · intro ha
        obtain rfl := List.mem_singleton.mp ha
        exact hne (List.mem_singleton.mp (hba.2 _ (.start hx))).symm
      · intro hb
        obtain rfl := List.mem_singleton.mp hb
        exact hne (List.mem_singleton.mp (hab.2 _ (.start hx)))
    | @extend _ x passed h hstep ih =>
      constructor
      · intro ha
        obtain rfl := (List.mem_cons.mp ha).resolve_right ih.1
        exact ih.2 (List.mem_of_ne_of_mem (Ne.symm hne) (hba.2 _ (.extend h hstep)))
      · intro hb
        obtain rfl := (List.mem_cons.mp hb).resolve_right ih.2
        exact ih.1 (List.mem_of_ne_of_mem hne (hab.2 _ (.extend h hstep)))
  obtain ⟨passed, h⟩ := hab.1
  exact (hneither h).2 h.goal_mem

end InTheWay

/-- A walk through things in line that keeps the one ahead of two ends at one that has all others
behind it. -/
theorem foldl_ahead {r : α → α → Prop} (htrans : ∀ {a b c}, r a b → r b c → r a c)
    (ahead : α → α → α) (hahead : ∀ a b, r a b ∧ ahead a b = b ∨ ¬ r a b ∧ ahead a b = a)
    (rest : List α) {a : α} (hline : ∀ x ∈ a :: rest, ∀ y ∈ a :: rest, r x y ∨ r y x) :
    rest.foldl ahead a ∈ a :: rest ∧ ∀ x ∈ a :: rest, r x (rest.foldl ahead a) := by
  induction rest generalizing a with
  | nil =>
    refine ⟨List.mem_cons_self, List.forall_mem_singleton.mpr ?_⟩
    exact (hline a List.mem_cons_self a List.mem_cons_self).elim id id
  | cons b rest ih =>
    have ha : a ∈ a :: b :: rest := List.mem_cons_self
    have hb : b ∈ a :: b :: rest := List.mem_cons_of_mem a List.mem_cons_self
    have hrest : ∀ x ∈ rest, x ∈ a :: b :: rest :=
      fun x hx => List.mem_cons_of_mem a (List.mem_cons_of_mem b hx)
    have hself : ∀ x ∈ a :: b :: rest, r x x := fun x hx => (hline x hx x hx).elim id id
    -- one of the two goes on, and has both behind it
    obtain ⟨hfrom, hra, hrb⟩ :
        ahead a b ∈ a :: b :: rest ∧ r a (ahead a b) ∧ r b (ahead a b) := by
      rcases hahead a b with ⟨hab, heq⟩ | ⟨hab, heq⟩
      · rw [heq]
        exact ⟨hb, hab, hself b hb⟩
      · rw [heq]
        exact ⟨ha, hself a ha, (hline a ha b hb).resolve_left hab⟩
    have hkept : ∀ x ∈ ahead a b :: rest, x ∈ a :: b :: rest :=
      List.forall_mem_cons.mpr ⟨hfrom, hrest⟩
    obtain ⟨hmem, hall⟩ := ih fun x hx y hy => hline x (hkept x hx) y (hkept y hy)
    have hlast := hall _ List.mem_cons_self
    refine ⟨hkept _ hmem, List.forall_mem_cons.mpr ⟨htrans hra hlast, ?_⟩⟩
    exact List.forall_mem_cons.mpr
      ⟨htrans hrb hlast, fun x hx => hall x (List.mem_cons_of_mem _ hx)⟩

variable {a d goal : α}

/-- No two are the closest. -/
theorem Closest.unique {e : α} (hd : Closest source step d goal)
    (he : Closest source step e goal) : d = e :=
  (he.2.2 d hd.1 hd.2.1).antisymm (hd.2.2 e he.1 he.2.1)

/-- If anything else stands in the way of a goal, one such thing is the closest. -/
theorem InTheWay.exists_closest (h : InTheWay source step a goal) (hne : a ≠ goal) :
    ∃ d, Closest source step d goal := by
  classical
  obtain ⟨passed, hroute⟩ := h.1
  let before := passed.filter fun x => x ≠ goal ∧ InTheWay source step x goal
  have hbefore : ∀ x, x ∈ before ↔ x ≠ goal ∧ InTheWay source step x goal := by
    intro x
    simp only [before, List.mem_filter, decide_eq_true_eq]
    exact and_iff_right_of_imp fun hx => hx.2.2 passed hroute
  obtain ⟨first, rest, hsplit⟩ := List.exists_cons_of_ne_nil
    (List.ne_nil_of_mem ((hbefore a).mpr ⟨hne, h⟩))
  simp only [hsplit] at hbefore
  obtain ⟨hmem, hall⟩ := foldl_ahead (r := InTheWay source step) InTheWay.trans
    (fun x y => if InTheWay source step x y then y else x)
    (fun x y => by by_cases hxy : InTheWay source step x y <;> simp [hxy]) rest
    fun x hx y hy => ((hbefore x).mp hx).2.total ((hbefore y).mp hy).2
  obtain ⟨hdne, hdway⟩ := (hbefore _).mp hmem
  exact ⟨_, hdne, hdway, fun x hx hway => hall x ((hbefore x).mpr ⟨hx, hway⟩)⟩

/-- What stands in the way of a goal that can be reached is what the links to the closest lead to
from there. -/
theorem inTheWay_iff_links (hreached : ∃ passed, Route source step passed goal) :
    InTheWay source step a goal ↔
      Relation.ReflTransGen (fun x y => Closest source step y x) goal a := by
  constructor
  · -- the closest lies earlier on a route, so the links are followed back along it
    have hall : ∀ {passed goal}, Route source step passed goal → ∀ x ∈ passed, ∀ a,
        InTheWay source step a x →
          Relation.ReflTransGen (fun x y => Closest source step y x) x a := by
      intro passed goal hroute
      induction hroute with
      | start hb =>
        intro x hx a h
        obtain rfl := List.mem_singleton.mp hx
        obtain rfl := List.mem_singleton.mp (h.2 _ (.start hb))
        exact .refl
      | @extend _ b passed hroute hstep ih =>
        intro x hx a h
        rcases List.mem_cons.mp hx with rfl | hx
        · by_cases hne : a = x
          · exact hne ▸ .refl
          · obtain ⟨d, hd⟩ := h.exists_closest hne
            have hpassed := List.mem_of_ne_of_mem hd.1 (hd.2.1.2 _ (.extend hroute hstep))
            exact .head hd (ih d hpassed a (hd.2.2 a hne h))
        · exact ih x hx a h
    intro h
    obtain ⟨passed, hroute⟩ := hreached
    exact hall hroute goal hroute.goal_mem a h
  · intro h
    induction h with
    | refl => exact ⟨hreached, fun _ hroute => hroute.goal_mem⟩
    | tail _ hlink ih => exact hlink.2.1.trans ih

end InTheWay

namespace FlowGraph

variable (g : FlowGraph)

/-- The entry, if it is one of the blocks. -/
def IsStart (b : BlockId) : Prop := b = g.entry ∧ b ∈ g.blocks

/-- A jump from one block to another. -/
def Leads (a b : BlockId) : Prop := a ∈ g.blocks ∧ b ∈ g.blocks ∧ b ∈ g.next a

/-- An exit, if it is one of the blocks. -/
def IsEnd (b : BlockId) : Prop := b ∈ g.exits ∧ b ∈ g.blocks

variable {g} {a b : BlockId}

/-- A walk that goes on from a route is a route. -/
private theorem Walk.route {visited : List BlockId} (h : g.Walk a visited b) :
    ∀ {passed}, Route g.IsStart g.Leads passed a →
      ∃ all, Route g.IsStart g.Leads all b ∧ ∀ x ∈ all, x ∈ passed ∨ x ∈ visited := by
  induction h with
  | stay _ => exact fun hroute => ⟨_, hroute, fun _ => .inl⟩
  | @jump a c _ visited ha hn hw ih =>
    intro passed hroute
    have hc : c ∈ visited := hw.source_mem
    obtain ⟨all, hall, hmem⟩ := ih (.extend hroute ⟨ha, hw.mem_blocks c hc, hn⟩)
    refine ⟨all, hall, fun x hx => ?_⟩
    rcases hmem x hx with hx | hx
    · rcases List.mem_cons.mp hx with rfl | hx
      · exact .inr (List.mem_cons_of_mem a hc)
      · exact .inl hx
    · exact .inr (List.mem_cons_of_mem a hx)

/-- A route from the entry is a walk. -/
private theorem walk_of_route {passed : List BlockId} (h : Route g.IsStart g.Leads passed b) :
    ∃ visited, g.Walk g.entry visited b ∧ ∀ x ∈ visited, x ∈ passed := by
  induction h with
  | start hb => exact ⟨_, hb.1 ▸ .stay hb.2, fun _ => id⟩
  | @extend a b passed _ hstep ih =>
    obtain ⟨visited, hw, hmem⟩ := ih
    obtain ⟨all, hall, hfrom⟩ := hw.append (.jump hstep.1 hstep.2.2 (.stay hstep.2.1))
    refine ⟨all, hall, fun x hx => ?_⟩
    rcases hfrom x hx with hx | hx
    · exact List.mem_cons_of_mem b (hmem x hx)
    · rcases List.mem_cons.mp hx with rfl | hx
      · exact List.mem_cons_of_mem b (hmem x hw.target_mem)
      · exact List.mem_cons.mpr (.inl (List.mem_singleton.mp hx))

/-- A block dominates another if it stands in the way from the entry. -/
theorem dominates_iff_inTheWay : g.Dominates a b ↔ InTheWay g.IsStart g.Leads a b := by
  have hroute : ∀ {visited}, g.Walk g.entry visited b →
      ∃ passed, Route g.IsStart g.Leads passed b ∧ ∀ x ∈ passed, x ∈ visited := by
    intro visited hw
    have hentry : g.entry ∈ visited := hw.source_mem
    obtain ⟨all, hall, hmem⟩ := hw.route (.start ⟨rfl, hw.mem_blocks _ hentry⟩)
    refine ⟨all, hall, fun x hx => (hmem x hx).elim (fun hx => ?_) id⟩
    exact List.mem_singleton.mp hx ▸ hentry
  constructor
  · rintro ⟨⟨visited, hw⟩, hall⟩
    obtain ⟨passed, hpassed, _⟩ := hroute hw
    refine ⟨⟨passed, hpassed⟩, fun passed hpassed => ?_⟩
    obtain ⟨visited, hw, hmem⟩ := walk_of_route hpassed
    exact hmem a (hall visited hw)
  · rintro ⟨⟨passed, hpassed⟩, hall⟩
    obtain ⟨visited, hw, _⟩ := walk_of_route hpassed
    refine ⟨⟨visited, hw⟩, fun visited hw => ?_⟩
    obtain ⟨passed, hpassed, hmem⟩ := hroute hw
    exact hmem a (hall passed hpassed)

/-- A route against the jumps from an exit is a walk to it. -/
private theorem route_iff_walk {visited : List BlockId} :
    Route g.IsEnd (fun a b => g.Leads b a) visited b ↔ ∃ e ∈ g.exits, g.Walk b visited e := by
  constructor
  · intro h
    induction h with
    | start hb => exact ⟨_, hb.1, .stay hb.2⟩
    | extend _ hstep ih =>
      obtain ⟨e, he, hw⟩ := ih
      exact ⟨e, he, .jump hstep.1 hstep.2.2 hw⟩
  · rintro ⟨e, he, hw⟩
    induction hw with
    | stay hb => exact .start ⟨he, hb⟩
    | jump ha hn hw ih => exact .extend (ih he) ⟨ha, hw.mem_blocks _ hw.source_mem, hn⟩

/-- A block post-dominates another if it stands in the way from the exits, against the jumps. -/
theorem postDominates_iff_inTheWay :
    g.PostDominates a b ↔ InTheWay g.IsEnd (fun a b => g.Leads b a) a b := by
  simp only [PostDominates, Ends, InTheWay, route_iff_walk]
  constructor
  · rintro ⟨⟨e, he, visited, hw⟩, hall⟩
    refine ⟨⟨visited, e, he, hw⟩, ?_⟩
    rintro visited ⟨e, he, hw⟩
    exact hall e he visited hw
  · rintro ⟨⟨visited, e, he, hw⟩, hall⟩
    exact ⟨⟨e, he, visited, hw⟩, fun e he visited hw => hall visited ⟨e, he, hw⟩⟩

end FlowGraph

end GuardElision
