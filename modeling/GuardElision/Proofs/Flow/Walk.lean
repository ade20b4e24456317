import GuardElision.Flow.Graph

/-!
# Walks through a procedure

A walk follows the jumps of a flow graph and remembers every block it visits. Reachability
inside a set of blocks is the existence of a walk that stays in the set, from the entry
forwards as well as from the exits backwards, so the two lists of blocks that the dominance
tables are made of are described by walks alone: `mem_dominatedBy_iff` and
`mem_postDominatedBy_iff`.
-/

namespace GuardElision

/-- A list with an entry for each of some blocks answers for these blocks, and what stands
behind it for all others. -/
theorem lookup_map_append {β : Type} (blocks : List BlockId) (f : BlockId → β)
    (rest : List (BlockId × β)) (b : BlockId) :
    (blocks.map (fun b => (b, f b)) ++ rest).lookup b =
      if b ∈ blocks then some (f b) else rest.lookup b := by
  induction blocks with
  | nil => rfl
  | cons c blocks ih =>
    by_cases hbc : b = c
    · simp [hbc]
    · have hne : (b == c) = false := by simpa using hbc
      simp only [List.map_cons, List.cons_append, List.lookup_cons, hne, ih, List.mem_cons, hbc,
        false_or]

theorem lookup_map {β : Type} (blocks : List BlockId) (f : BlockId → β) (b : BlockId) :
    (blocks.map fun b => (b, f b)).lookup b = if b ∈ blocks then some (f b) else none := by
  simpa using lookup_map_append blocks f [] b

namespace FlowGraph

/-- A walk along the jumps of a procedure, with the blocks it visits from first to last. -/
inductive Walk (g : FlowGraph) : BlockId → List BlockId → BlockId → Prop where
  /-- The walk that stays where it is. -/
  | stay {a : BlockId} : a ∈ g.blocks → Walk g a [a] a
  /-- A jump in front of a walk. -/
  | jump {a b c : BlockId} {visited : List BlockId} : a ∈ g.blocks → b ∈ g.next a →
      Walk g b visited c → Walk g a (a :: visited) c

/-- Some walk leads from the entry to a block. -/
def Entered (g : FlowGraph) (b : BlockId) : Prop := ∃ visited, g.Walk g.entry visited b

/-- Some walk leads from a block to an exit. -/
def Ends (g : FlowGraph) (b : BlockId) : Prop := ∃ e ∈ g.exits, ∃ visited, g.Walk b visited e

/-- A block can be entered, and all walks that enter it pass `a`. -/
def Dominates (g : FlowGraph) (a b : BlockId) : Prop :=
  g.Entered b ∧ ∀ visited, g.Walk g.entry visited b → a ∈ visited

/-- A block can be left for an exit, and all walks that do so pass `a`. -/
def PostDominates (g : FlowGraph) (a b : BlockId) : Prop :=
  g.Ends b ∧ ∀ e ∈ g.exits, ∀ visited, g.Walk b visited e → a ∈ visited

namespace Walk

variable {g : FlowGraph} {a b c : BlockId} {visited : List BlockId}

/-- A walk visits the block it starts from. -/
theorem source_mem (h : g.Walk a visited b) : a ∈ visited := by
  cases h <;> exact List.mem_cons_self

/-- A walk visits the block it ends in. -/
theorem target_mem (h : g.Walk a visited b) : b ∈ visited := by
  induction h with
  | stay _ => exact List.mem_cons_self
  | jump _ _ _ ih => exact List.mem_cons_of_mem _ ih

/-- A walk stays in its procedure. -/
theorem mem_blocks (h : g.Walk a visited b) : ∀ x ∈ visited, x ∈ g.blocks := by
  induction h with
  | stay ha => simpa using ha
  | jump ha _ _ ih =>
    intro x hx
    rcases List.mem_cons.mp hx with rfl | hx
    · exact ha
    · exact ih x hx

/-- Two walks that meet make one walk, which visits what either of them visits. -/
theorem append (h : g.Walk a visited b) {later : List BlockId} (h' : g.Walk b later c) :
    ∃ all, g.Walk a all c ∧ ∀ x ∈ all, x ∈ visited ∨ x ∈ later := by
  induction h with
  | stay _ => exact ⟨later, h', fun x hx => .inr hx⟩
  | @jump a _ _ visited ha hn _ ih =>
    obtain ⟨all, hall, hmem⟩ := ih h'
    refine ⟨a :: all, .jump ha hn hall, fun x hx => ?_⟩
    rcases List.mem_cons.mp hx with rfl | hx
    · exact .inl List.mem_cons_self
    · exact (hmem x hx).imp_left (List.mem_cons_of_mem a)

/-- A walk can be cut at any block it visits. -/
theorem split (h : g.Walk a visited c) (hb : b ∈ visited) :
    ∃ before after, g.Walk a before b ∧ g.Walk b after c ∧
      (∀ x ∈ before, x ∈ visited) ∧ ∀ x ∈ after, x ∈ visited := by
  induction h with
  | stay ha =>
    obtain rfl := List.mem_singleton.mp hb
    exact ⟨_, _, .stay ha, .stay ha, fun _ => id, fun _ => id⟩
  | @jump a _ _ visited ha hn hw ih =>
    by_cases hab : b = a
    · subst hab
      exact ⟨_, _, .stay ha, .jump ha hn hw, by simp, fun _ => id⟩
    · have hb := (List.mem_cons.mp hb).resolve_left hab
      obtain ⟨before, after, h₁, h₂, hbefore, hafter⟩ := ih hb
      refine ⟨a :: before, after, .jump ha hn h₁, h₂, fun x hx => ?_, fun x hx => ?_⟩
      · rcases List.mem_cons.mp hx with rfl | hx
        · exact List.mem_cons_self
        · exact List.mem_cons_of_mem _ (hbefore x hx)
      · exact List.mem_cons_of_mem _ (hafter x hx)

end Walk

section Reachability

variable (g : FlowGraph) {domain : List BlockId}

private theorem within_of_walk {seeds : List BlockId} {a b : BlockId} {visited : List BlockId}
    (h : g.Walk a visited b) (hin : ∀ x ∈ visited, x ∈ domain)
    (ha : Reach.Within g.next domain seeds a) : Reach.Within g.next domain seeds b := by
  induction h with
  | stay _ => exact ha
  | jump _ hn hw ih =>
    have hrest := fun x hx => hin x (List.mem_cons_of_mem _ hx)
    exact ih hrest (.step ha (hrest _ hw.source_mem) hn)

/-- Reaching a block from another inside a set of blocks is walking there inside the set. -/
theorem within_iff_walk (hd : ∀ x ∈ domain, x ∈ g.blocks) (a b : BlockId) :
    Reach.Within g.next domain [a] b ↔
      ∃ visited, g.Walk a visited b ∧ ∀ x ∈ visited, x ∈ domain := by
  constructor
  · intro h
    induction h with
    | @seed x hx hs =>
      obtain rfl := List.mem_singleton.mp hs
      exact ⟨[x], .stay (hd x hx), by simpa using hx⟩
    | @step x y hx hy hn ih =>
      obtain ⟨visited, hw, hin⟩ := ih
      have hlast : g.Walk x [x, y] y := .jump (hd x hx.mem_domain) hn (.stay (hd y hy))
      obtain ⟨all, hall, hmem⟩ := hw.append hlast
      refine ⟨all, hall, fun z hz => ?_⟩
      rcases hmem z hz with hz | hz
      · exact hin z hz
      · rcases List.mem_cons.mp hz with rfl | hz
        · exact hx.mem_domain
        · exact List.mem_singleton.mp hz ▸ hy
  · rintro ⟨visited, hw, hin⟩
    exact within_of_walk g hw hin (.seed (hin a hw.source_mem) (List.mem_singleton.mpr rfl))

/-- A block's jumps turned around lead to the blocks that jump to it. -/
theorem mem_reversed_next_iff (x y : BlockId) :
    y ∈ g.reversed.next x ↔ x ∈ g.blocks ∧ y ∈ g.blocks ∧ x ∈ g.next y := by
  rw [next, reversed, lookup_map]
  by_cases hx : x ∈ g.blocks <;> simp [hx, previous]

/-- Reaching a block backwards from the exits inside a set of blocks is walking from the block
to an exit inside the set. -/
theorem within_reversed_iff_walk (hd : ∀ x ∈ domain, x ∈ g.blocks) (b : BlockId) :
    Reach.Within g.reversed.next domain g.exits b ↔
      ∃ e ∈ g.exits, ∃ visited, g.Walk b visited e ∧ ∀ x ∈ visited, x ∈ domain := by
  constructor
  · intro h
    induction h with
    | @seed x hx he => exact ⟨x, he, [x], .stay (hd x hx), by simpa using hx⟩
    | @step x y _ hy hn ih =>
      obtain ⟨e, he, visited, hw, hin⟩ := ih
      obtain ⟨-, hyb, hjump⟩ := (g.mem_reversed_next_iff x y).mp hn
      refine ⟨e, he, y :: visited, .jump hyb hjump hw, fun z hz => ?_⟩
      rcases List.mem_cons.mp hz with rfl | hz
      · exact hy
      · exact hin z hz
  · rintro ⟨e, he, visited, hw, hin⟩
    induction hw with
    | stay _ => exact .seed (hin _ List.mem_cons_self) he
    | @jump a c _ _ ha hn hw ih =>
      have hrest := fun x hx => hin x (List.mem_cons_of_mem _ hx)
      have hc : c ∈ g.blocks := hw.mem_blocks c hw.source_mem
      exact .step (ih he hrest) (hin a List.mem_cons_self)
        ((g.mem_reversed_next_iff c a).mpr ⟨hc, ha, hn⟩)

/-- Taking a block away leaves all others. -/
theorem mem_without_iff (gone x : BlockId) : x ∈ g.without gone ↔ x ∈ g.blocks ∧ x ≠ gone := by
  simp [without]

private theorem forall_mem_without_iff {gone : BlockId} {visited : List BlockId}
    (hin : ∀ x ∈ visited, x ∈ g.blocks) :
    (∀ x ∈ visited, x ∈ g.without gone) ↔ gone ∉ visited := by
  constructor
  · intro h hmem
    exact ((g.mem_without_iff gone gone).mp (h gone hmem)).2 rfl
  · intro h x hx
    exact (g.mem_without_iff gone x).mpr ⟨hin x hx, fun he => h (he ▸ hx)⟩

/-- The live blocks are those that can be entered. -/
theorem mem_live_iff (b : BlockId) : b ∈ g.live ↔ g.Entered b := by
  rw [live, Reach.mem_gather_iff, within_iff_walk g fun _ => id]
  exact exists_congr fun visited => and_iff_left_of_imp Walk.mem_blocks

/-- The ending blocks are those that can be left for an exit. -/
theorem mem_ending_iff (b : BlockId) : b ∈ g.ending g.reversed ↔ g.Ends b := by
  rw [ending, Reach.mem_gather_iff, within_reversed_iff_walk g fun _ => id]
  exact exists_congr fun e => and_congr_right fun _ => exists_congr fun visited =>
    and_iff_left_of_imp Walk.mem_blocks

instance (b : BlockId) : Decidable (g.Entered b) := decidable_of_iff _ (g.mem_live_iff b)

instance (b : BlockId) : Decidable (g.Ends b) := decidable_of_iff _ (g.mem_ending_iff b)

/-- A block is listed as dominated by `a` exactly when `a` dominates it. -/
theorem mem_dominatedBy_iff (a b : BlockId) : b ∈ g.dominatedBy a ↔ g.Dominates a b := by
  have havoid : b ∈ g.liveWithout a ↔ ∃ visited, g.Walk g.entry visited b ∧ a ∉ visited := by
    rw [liveWithout, Reach.mem_gather_iff,
      within_iff_walk g fun x hx => ((g.mem_without_iff a x).mp hx).1]
    exact exists_congr fun visited =>
      and_congr_right fun hw => g.forall_mem_without_iff hw.mem_blocks
  simp only [dominatedBy, List.mem_filter, mem_live_iff, Dominates]
  exact and_congr_right fun _ => by simp [havoid]

/-- A block is listed as post-dominated by `a` exactly when `a` post-dominates it. -/
theorem mem_postDominatedBy_iff (a b : BlockId) :
    b ∈ g.postDominatedBy g.reversed a ↔ g.PostDominates a b := by
  have havoid : b ∈ g.endingWithout g.reversed a ↔
      ∃ e ∈ g.exits, ∃ visited, g.Walk b visited e ∧ a ∉ visited := by
    rw [endingWithout, Reach.mem_gather_iff,
      within_reversed_iff_walk g fun x hx => ((g.mem_without_iff a x).mp hx).1]
    exact exists_congr fun e => and_congr_right fun _ => exists_congr fun visited =>
      and_congr_right fun hw => g.forall_mem_without_iff hw.mem_blocks
  simp only [postDominatedBy, List.mem_filter, mem_ending_iff, PostDominates]
  exact and_congr_right fun _ => by simp [havoid]

end Reachability

end FlowGraph

end GuardElision
