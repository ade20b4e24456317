import GuardElision.Redundancy.Subsumption

/-!
# Comparisons do not see what was remembered

A session is faithful when every slice in its memory is the slice of its root. Each
comparison, started in a faithful session, gives the verdict and adds the cut-offs that it
would give and add in a fresh session, and leaves a faithful session behind. The property
passes through sequencing and through the short-circuiting loops, so it reaches
`Strategy.subsumed` by one lemma for each rule of the comparison.
-/

namespace GuardElision

/-- Every remembered slice is the slice of its root. -/
def Session.Faithful (p : Program) (s : Session) : Prop :=
  ∀ root policy found, s.slicer.memory.lookup (root, policy) = some found →
    found = p.backwardSlice policy root

/-- A fresh session remembers nothing. -/
theorem Session.faithful_fresh (p : Program) : Session.Faithful p {} := by
  intro root policy found h
  simp at h

/-- What a comparison finds in a fresh session. -/
def Compare.verdict {α : Type} (x : Compare α) : α := (x {}).1

/-- In every faithful session a comparison does what it does in a fresh one. -/
structure Compare.Steady (p : Program) {α : Type} (x : Compare α) : Prop where
  /-- The verdict is the same. -/
  value : ∀ s : Session, s.Faithful p → (x s).1 = x.verdict
  /-- As many cut-offs are added. -/
  cutOffs : ∀ s : Session, s.Faithful p → (x s).2.cutOffs = s.cutOffs + (x {}).2.cutOffs
  /-- Nothing wrong is remembered. -/
  faithful : ∀ s : Session, s.Faithful p → (x s).2.Faithful p

namespace Compare

variable {p : Program} {α β : Type}

theorem steady_pure (a : α) : Steady p (pure a : Compare α) :=
  ⟨fun _ _ => rfl, fun _ _ => rfl, fun _ h => h⟩

/-- In a faithful session the second step goes on from the verdict of the first. -/
theorem Steady.bind_apply {x : Compare α} {f : α → Compare β} (hx : Steady p x) {s : Session}
    (hs : s.Faithful p) : (x >>= f) s = f x.verdict (x s).2 := by
  rw [← hx.value s hs]
  rfl

/-- Sequencing keeps steadiness: the second step starts in a faithful session. -/
theorem Steady.bind {x : Compare α} {f : α → Compare β} (hx : Steady p x)
    (hf : ∀ a, Steady p (f a)) : Steady p (x >>= f) := by
  have hfresh := Session.faithful_fresh p
  refine ⟨fun s hs => ?_, fun s hs => ?_, fun s hs => ?_⟩
  · rw [verdict, hx.bind_apply hs, hx.bind_apply hfresh, (hf _).value _ (hx.faithful s hs),
      (hf _).value _ (hx.faithful {} hfresh)]
  · rw [hx.bind_apply hs, hx.bind_apply hfresh, (hf _).cutOffs _ (hx.faithful s hs),
      (hf _).cutOffs _ (hx.faithful {} hfresh), hx.cutOffs s hs]
    omega
  · rw [hx.bind_apply hs]
    exact (hf _).faithful _ (hx.faithful s hs)

/-- The verdict of a sequence is that of its second step on the verdict of the first. -/
theorem verdict_bind {x : Compare α} {f : α → Compare β} (hx : Steady p x)
    (hf : ∀ a, Steady p (f a)) : (x >>= f).verdict = (f x.verdict).verdict :=
  (hf _).value _ (hx.faithful {} (Session.faithful_fresh p))

theorem Steady.ite {c : Prop} [Decidable c] {x y : Compare α} (hx : Steady p x)
    (hy : Steady p y) : Steady p (if c then x else y) := by
  split
  · exact hx
  · exact hy

theorem Steady.allM {items : List α} {f : α → Compare Bool} (hf : ∀ a, Steady p (f a)) :
    Steady p (items.allM f) := by
  induction items with
  | nil => exact steady_pure true
  | cons a rest ih =>
    refine (hf a).bind fun b => ?_
    cases b
    · exact steady_pure false
    · exact ih

/-- All of a list pass together when each passes alone. -/
theorem verdict_allM {items : List α} {f : α → Compare Bool} (hf : ∀ a, Steady p (f a)) :
    (items.allM f).verdict = items.all fun a => (f a).verdict := by
  induction items with
  | nil => rfl
  | cons a rest ih =>
    rw [List.all_cons, ← ih]
    refine (verdict_bind (hf a) fun b => ?_).trans ?_
    · cases b
      · exact steady_pure false
      · exact Steady.allM hf
    · cases (f a).verdict <;> rfl

theorem Steady.anyM {items : List α} {f : α → Compare Bool} (hf : ∀ a, Steady p (f a)) :
    Steady p (items.anyM f) := by
  induction items with
  | nil => exact steady_pure false
  | cons a rest ih =>
    refine (hf a).bind fun b => ?_
    cases b
    · exact ih
    · exact steady_pure true

/-- One of a list passes when one passes alone. -/
theorem verdict_anyM {items : List α} {f : α → Compare Bool} (hf : ∀ a, Steady p (f a)) :
    (items.anyM f).verdict = items.any fun a => (f a).verdict := by
  induction items with
  | nil => rfl
  | cons a rest ih =>
    rw [List.any_cons, ← ih]
    refine (verdict_bind (hf a) fun b => ?_).trans ?_
    · cases b
      · exact Steady.anyM hf
      · exact steady_pure true
    · cases (f a).verdict <;> rfl

theorem Steady.foldlM {items : List α} {f : β → α → Compare β} (hf : ∀ b a, Steady p (f b a))
    (start : β) : Steady p (items.foldlM f start) := by
  induction items generalizing start with
  | nil => exact steady_pure start
  | cons a rest ih => exact (hf start a).bind ih

/-- A slice is the same whether it is remembered or computed. -/
theorem steady_slice (policy : LeafPolicy) (id : NodeId) : Steady p (slice p policy id) := by
  have hvalue : ∀ s : Session, s.Faithful p →
      (slice p policy id s).1 = p.backwardSlice policy id := by
    intro s hs
    simp only [slice, Slicer.slice]
    cases h : s.slicer.memory.lookup (id, policy) with
    | none => rfl
    | some found => exact hs id policy found h
  refine ⟨fun s hs => ?_, fun s _ => ?_, fun s hs => ?_⟩
  · rw [verdict, hvalue s hs, hvalue {} (Session.faithful_fresh p)]
  · simp only [slice, Slicer.slice]
    cases s.slicer.memory.lookup (id, policy) <;> rfl
  · simp only [slice, Slicer.slice]
    cases h : s.slicer.memory.lookup (id, policy) with
    | some found => exact hs
    | none =>
      intro root policy' found hfound
      simp only [List.lookup_cons] at hfound
      split at hfound
      · next heq =>
        obtain ⟨rfl, rfl⟩ := Prod.mk.inj (eq_of_beq heq)
        exact (Option.some.inj hfound).symm
      · exact hs root policy' found hfound

theorem steady_sliceOperand (policy : LeafPolicy) (operand : Operand) :
    Steady p (sliceOperand p policy operand) := by
  cases operand with
  | node id => exact steady_slice policy id
  | constant value => exact steady_pure _
  | external id => exact steady_pure _

theorem steady_sliceCheck (policy : LeafPolicy) (branch : NodeId) :
    Steady p (sliceCheck p policy branch) := by
  cases h : p.condition? branch with
  | none =>
    have he : sliceCheck p policy branch = pure .empty := by
      funext s
      simp only [sliceCheck, Slicer.sliceCheck, h]
      rfl
    exact he ▸ steady_pure _
  | some condition =>
    have he : sliceCheck p policy branch = sliceOperand p policy condition := by
      funext s
      simp only [sliceCheck, Slicer.sliceCheck, h, sliceOperand]
    exact he ▸ steady_sliceOperand policy condition

theorem steady_cutOff : Steady p cutOff :=
  ⟨fun _ _ => rfl, fun _ _ => rfl, fun _ h => h⟩

end Compare

namespace Match

open Compare

section Leaves

variable {p : Program} {deeper : Deeper} (hdeeper : ∀ a b, Steady p (deeper a b))
  (policy : MatchPolicy)

include hdeeper

theorem steady_sameSlices (a b : NodeId) : Steady p (sameSlices p policy deeper a b) :=
  (steady_slice _ a).bind fun fa => (steady_slice _ b).bind fun fb => hdeeper fa fb

theorem steady_sameRead (a b : Node) : Steady p (sameRead p policy deeper a b) := by
  unfold sameRead
  split
  · exact (steady_pure _).ite (steady_sameSlices hdeeper policy _ _)
  · exact steady_pure _
  · exact (steady_sliceOperand _ _).bind fun fa => (steady_slice _ _).bind fun fb => hdeeper fa fb
  · exact steady_pure _
  · exact steady_pure _

theorem steady_sameAddressPart (x y : Operand) :
    Steady p (sameAddressPart p policy deeper x y) := by
  unfold sameAddressPart
  split
  · exact (steady_pure _).ite (steady_sameSlices hdeeper policy _ _)
  · exact steady_pure _
  · exact (steady_slice _ _).bind fun fb => steady_pure _
  · exact steady_pure _

theorem steady_sameGenericPart (x y : Operand) :
    Steady p (sameGenericPart p policy deeper x y) := by
  unfold sameGenericPart
  split
  · exact (steady_pure _).ite (steady_sameSlices hdeeper policy _ _)
  · exact steady_pure _

theorem steady_sameGeneric (a b : Node) : Steady p (sameGeneric p policy deeper a b) := by
  unfold sameGeneric
  split
  · exact steady_pure _
  · exact Steady.allM fun (x, y) => steady_sameGenericPart hdeeper policy x y

theorem steady_matchInside (leaf : Leaf) (b : Node) :
    Steady p (matchInside p policy deeper leaf b) := by
  unfold matchInside
  refine (steady_pure _).ite (Steady.anyM fun operand => ?_)
  exact (steady_sliceOperand _ operand).bind fun fb => hdeeper _ fb

theorem steady_sameNode (idA : NodeId) (a b : Node) :
    Steady p (sameNode p policy deeper idA a b) := by
  have hinside := steady_matchInside hdeeper policy (.node idA) b
  unfold sameNode
  split
  · exact steady_pure _
  · exact steady_sameRead hdeeper policy a b
  · exact Steady.ite (Steady.allM fun (x, y) => steady_sameAddressPart hdeeper policy x y) hinside
  · exact (steady_sameGeneric hdeeper policy a b).ite hinside
  · exact hinside

theorem steady_sameLeaf (a b : Leaf) : Steady p (sameLeaf p policy deeper a b) := by
  unfold sameLeaf
  refine (steady_pure _).ite ?_
  split
  · exact steady_pure _
  · split
    · exact steady_pure _
    · split
      · exact steady_matchInside hdeeper policy _ _
      · split
        · exact steady_pure _
        · exact steady_sameNode hdeeper policy _ _ _

theorem steady_coverLeaves (a b : Fingerprint) : Steady p (coverLeaves p policy deeper a b) :=
  Steady.allM fun x => Steady.anyM fun y => steady_sameLeaf hdeeper policy x y

end Leaves

theorem steady_sameLocation (p : Program) (policy : MatchPolicy) (levels : Nat)
    (a b : Fingerprint) : Steady p (sameLocation p policy levels a b) := by
  induction levels generalizing a b with
  | zero => exact (steady_pure _).ite steady_cutOff
  | succ levels ih => exact (steady_pure _).ite (steady_coverLeaves ih policy a b)

theorem steady_sameShape (p : Program) (levels : Nat) (a b : Operand) :
    Steady p (sameShape p levels a b) := by
  induction levels generalizing a b with
  | zero =>
    rw [sameShape.eq_def]
    refine (steady_pure _).ite ?_
    split
    · split
      · exact steady_cutOff.ite (steady_pure _)
      · exact steady_pure _
    · exact steady_pure _
  | succ levels ih =>
    rw [sameShape.eq_def]
    refine (steady_pure _).ite ?_
    split
    · split
      · exact (Steady.allM fun (u, v) => ih u v).ite (steady_pure _)
      · exact steady_pure _
    · exact steady_pure _

end Match

namespace Strategy

open Compare

theorem steady_refine (p : Program) (candidate coverer : Check) (source : Source)
    (f : Fingerprint) : Steady p (refine p candidate coverer source f) := by
  unfold refine
  refine Steady.ite ?_ (steady_pure _)
  split
  · refine Steady.bind ?_ fun _ => steady_pure _
    exact Steady.foldlM (fun _ operand => (steady_sliceOperand _ operand).bind fun _ =>
      steady_pure _) _
  · exact steady_pure _

/-- Whether a check makes another superfluous does not depend on what was compared before. -/
theorem steady_subsumed (s : Strategy) (p : Program) (candidate coverer : Check)
    (source : Source) : Steady p (s.subsumed p candidate coverer source) := by
  unfold subsumed
  refine (steady_pure _).ite (Steady.ite ?_ ?_)
  · split
    · exact Match.steady_sameShape p _ _ _
    · exact steady_pure _
  · refine (steady_sliceCheck _ _).bind fun own => ?_
    refine (steady_refine p candidate coverer source own).bind fun (wanted, policy) => ?_
    exact (steady_sliceCheck _ _).bind fun covering =>
      Match.steady_sameLocation p policy _ wanted covering

end Strategy

end GuardElision
