import GuardElision.Program.Builder
import GuardElision.Proofs.Match.Requests

/-!
# The depth limit

A comparison may go down a number of levels and is cut off below; a cut counts as no match and is
counted. With more levels to go, a comparison accepts all that it accepted before. One that was
never cut off needs no more levels: with any larger number of them it takes the same steps to the
same verdict, so the count of cuts tells whether a negative verdict can be trusted.

Both facts are carried through the rules of the comparison together (`Compare.Deepens`), because the
loops stop at the first verdict that decides them: only if nothing was cut off do the two runs stop
at the same place.
-/

namespace GuardElision

namespace Compare

variable {p : Program} {α : Type}

/-- How often a comparison is cut off in a fresh session. -/
def cuts (x : Compare α) : Nat := (x {}).2.cutOffs

/-- The cuts of a sequence are those of its steps. -/
theorem cuts_bind {β : Type} {x : Compare α} {f : α → Compare β} (hx : Steady p x)
    (hf : ∀ a, Steady p (f a)) : (x >>= f).cuts = x.cuts + (f x.verdict).cuts := by
  have hfresh := Session.faithful_fresh p
  rw [cuts, hx.bind_apply hfresh, (hf _).cutOffs _ (hx.faithful {} hfresh)]
  rfl

/-- The second comparison is the first one with more levels to go. -/
structure Deepens (p : Program) (x y : Compare Bool) : Prop where
  steady_left : Steady p x
  steady_right : Steady p y
  /-- What was accepted stays accepted. -/
  accepts : x.verdict = true → y.verdict = true
  /-- What was not cut off stays as it was. -/
  settled : x.cuts = 0 → y.verdict = x.verdict ∧ y.cuts = 0

namespace Deepens

theorem refl {x : Compare Bool} (hx : Steady p x) : Deepens p x x :=
  ⟨hx, hx, id, fun hcuts => ⟨rfl, hcuts⟩⟩

theorem ite {c : Prop} [Decidable c] {x y x' y' : Compare Bool} (h : Deepens p x y)
    (h' : Deepens p x' y') : Deepens p (if c then x else x') (if c then y else y') := by
  split
  · exact h
  · exact h'

/-- What is cut off at once is deepened by everything. -/
theorem cutOff {y : Compare Bool} (hy : Steady p y) : Deepens p Compare.cutOff y :=
  ⟨steady_cutOff, hy, nofun, nofun⟩

/-- A step that has no levels comes before comparisons that have. -/
theorem bind {x : Compare α} {f g : α → Compare Bool} (hx : Steady p x)
    (h : ∀ a, Deepens p (f a) (g a)) : Deepens p (x >>= f) (x >>= g) := by
  have hf := fun a => (h a).steady_left
  have hg := fun a => (h a).steady_right
  refine ⟨hx.bind hf, hx.bind hg, ?_, ?_⟩
  · rw [verdict_bind hx hf, verdict_bind hx hg]
    exact (h _).accepts
  · rw [verdict_bind hx hf, verdict_bind hx hg, cuts_bind hx hf, cuts_bind hx hg]
    intro hcuts
    obtain ⟨hverdict, hnone⟩ := (h _).settled (Nat.eq_zero_of_add_eq_zero_left hcuts)
    exact ⟨hverdict, by omega⟩

/-- A verdict decides how to go on, and a positive one does not spoil what a negative one led to. -/
theorem next {x y : Compare Bool} {f g : Bool → Compare Bool} (hx : Deepens p x y)
    (h : ∀ b, Deepens p (f b) (g b)) (hup : (f false).verdict = true → (g true).verdict = true) :
    Deepens p (x >>= f) (y >>= g) := by
  have hf := fun b => (h b).steady_left
  have hg := fun b => (h b).steady_right
  refine ⟨hx.steady_left.bind hf, hx.steady_right.bind hg, ?_, ?_⟩
  · rw [verdict_bind hx.steady_left hf, verdict_bind hx.steady_right hg]
    intro htrue
    cases hxv : x.verdict with
    | true =>
      rw [hxv] at htrue
      rw [hx.accepts hxv]
      exact (h true).accepts htrue
    | false =>
      rw [hxv] at htrue
      cases y.verdict with
      | true => exact hup htrue
      | false => exact (h false).accepts htrue
  · rw [verdict_bind hx.steady_left hf, verdict_bind hx.steady_right hg,
      cuts_bind hx.steady_left hf, cuts_bind hx.steady_right hg]
    intro hcuts
    obtain ⟨hverdict, hnone⟩ := hx.settled (Nat.eq_zero_of_add_eq_zero_right hcuts)
    rw [hverdict]
    obtain ⟨hverdict', hnone'⟩ := (h _).settled (Nat.eq_zero_of_add_eq_zero_left hcuts)
    exact ⟨hverdict', by omega⟩

theorem allM {items : List α} {f g : α → Compare Bool} (h : ∀ a, Deepens p (f a) (g a)) :
    Deepens p (items.allM f) (items.allM g) := by
  induction items with
  | nil => exact refl (steady_pure true)
  | cons a rest ih =>
    refine (h a).next (fun b => ?_) nofun
    cases b
    · exact refl (steady_pure false)
    · exact ih

theorem anyM {items : List α} {f g : α → Compare Bool} (h : ∀ a, Deepens p (f a) (g a)) :
    Deepens p (items.anyM f) (items.anyM g) := by
  induction items with
  | nil => exact refl (steady_pure false)
  | cons a rest ih =>
    refine (h a).next (fun b => ?_) fun _ => rfl
    cases b
    · exact ih
    · exact refl (steady_pure true)

end Deepens

end Compare

namespace Match

open Compare

section Leaves

variable {p : Program} {deeper deepest : Deeper}
  (hdeeper : ∀ a b, Deepens p (deeper a b) (deepest a b)) (policy : MatchPolicy)

include hdeeper

theorem deepens_sameSlices (a b : NodeId) :
    Deepens p (sameSlices p policy deeper a b) (sameSlices p policy deepest a b) :=
  .bind (steady_slice _ a) fun fa => .bind (steady_slice _ b) fun fb => hdeeper fa fb

theorem deepens_sameRead (a b : Node) :
    Deepens p (sameRead p policy deeper a b) (sameRead p policy deepest a b) := by
  unfold sameRead
  split
  · exact .ite (.refl (steady_pure _)) (deepens_sameSlices hdeeper policy _ _)
  · exact .refl (steady_pure _)
  · exact .bind (steady_sliceOperand _ _) fun fa => .bind (steady_slice _ _) fun fb => hdeeper fa fb
  · exact .refl (steady_pure _)
  · exact .refl (steady_pure _)

theorem deepens_sameAddressPart (x y : Operand) :
    Deepens p (sameAddressPart p policy deeper x y) (sameAddressPart p policy deepest x y) := by
  unfold sameAddressPart
  split
  · exact .ite (.refl (steady_pure _)) (deepens_sameSlices hdeeper policy _ _)
  · exact .refl (steady_pure _)
  · exact .refl ((steady_slice _ _).bind fun fb => steady_pure _)
  · exact .refl (steady_pure _)

theorem deepens_sameGenericPart (x y : Operand) :
    Deepens p (sameGenericPart p policy deeper x y) (sameGenericPart p policy deepest x y) := by
  unfold sameGenericPart
  split
  · exact .ite (.refl (steady_pure _)) (deepens_sameSlices hdeeper policy _ _)
  · exact .refl (steady_pure _)

theorem deepens_sameGeneric (a b : Node) :
    Deepens p (sameGeneric p policy deeper a b) (sameGeneric p policy deepest a b) := by
  unfold sameGeneric
  split
  · exact .refl (steady_pure _)
  · exact .allM fun pair => deepens_sameGenericPart hdeeper policy pair.1 pair.2

theorem deepens_matchInside (leaf : Leaf) (b : Node) :
    Deepens p (matchInside p policy deeper leaf b) (matchInside p policy deepest leaf b) := by
  unfold matchInside
  refine .ite (.refl (steady_pure _)) (.anyM fun operand => ?_)
  exact .bind (steady_sliceOperand _ operand) fun fb => hdeeper _ fb

theorem deepens_sameNode (idA : NodeId) (a b : Node) :
    Deepens p (sameNode p policy deeper idA a b) (sameNode p policy deepest idA a b) := by
  have hinside := deepens_matchInside hdeeper policy (.node idA) b
  unfold sameNode
  split
  · exact .refl (steady_pure _)
  · exact deepens_sameRead hdeeper policy a b
  · exact .ite (.allM fun pair => deepens_sameAddressPart hdeeper policy pair.1 pair.2) hinside
  · exact .ite (deepens_sameGeneric hdeeper policy a b) hinside
  · exact hinside

theorem deepens_sameLeaf (a b : Leaf) :
    Deepens p (sameLeaf p policy deeper a b) (sameLeaf p policy deepest a b) := by
  unfold sameLeaf
  refine .ite (.refl (steady_pure _)) ?_
  split
  · exact .refl (steady_pure _)
  · split
    · exact .refl (steady_pure _)
    · split
      · exact deepens_matchInside hdeeper policy _ _
      · split
        · exact .refl (steady_pure _)
        · exact deepens_sameNode hdeeper policy _ _ _

theorem deepens_coverLeaves (a b : Fingerprint) :
    Deepens p (coverLeaves p policy deeper a b) (coverLeaves p policy deepest a b) :=
  .allM fun x => .anyM fun y => deepens_sameLeaf hdeeper policy x y

end Leaves

variable (p : Program) {levels more : Nat}

/-- Fingerprints compared with more levels to go. -/
theorem deepens_sameLocation (policy : MatchPolicy) (hle : levels ≤ more) (a b : Fingerprint) :
    Deepens p (sameLocation p policy levels a b) (sameLocation p policy more a b) := by
  induction levels generalizing more a b with
  | zero =>
    cases more with
    | zero => exact .refl (steady_sameLocation p policy 0 a b)
    | succ more =>
      have hsteady := steady_coverLeaves (steady_sameLocation p policy more) policy a b
      exact .ite (.refl (steady_pure _)) (.cutOff hsteady)
  | succ levels ih =>
    obtain ⟨more, rfl⟩ : ∃ k, more = k + 1 := ⟨more - 1, by omega⟩
    exact .ite (.refl (steady_pure _)) (deepens_coverLeaves (ih (by omega)) policy a b)

/-- Shapes compared with more levels to go. -/
theorem deepens_sameShape (hle : levels ≤ more) (a b : Operand) :
    Deepens p (sameShape p levels a b) (sameShape p more a b) := by
  induction levels generalizing more a b with
  | zero =>
    cases more with
    | zero => exact .refl (steady_sameShape p 0 a b)
    | succ more =>
      rw [sameShape.eq_def, sameShape.eq_def p (more + 1)]
      refine .ite (.refl (steady_pure _)) ?_
      split
      · split
        · exact .ite (.cutOff (Steady.allM fun pair =>
            steady_sameShape p more pair.1 pair.2)) (.refl (steady_pure _))
        · exact .refl (steady_pure _)
      · exact .refl (steady_pure _)
  | succ levels ih =>
    obtain ⟨more, rfl⟩ : ∃ k, more = k + 1 := ⟨more - 1, by omega⟩
    rw [sameShape.eq_def, sameShape.eq_def p (more + 1)]
    refine .ite (.refl (steady_pure _)) ?_
    split
    · split
      · exact .ite (.allM fun pair => ih (by omega) pair.1 pair.2) (.refl (steady_pure _))
      · exact .refl (steady_pure _)
    · exact .refl (steady_pure _)

end Match

namespace Strategy

open Compare

/-- Checks compared with more levels to go. -/
theorem deepens_subsumed (p : Program) (level : Level) (stem : String) {levels more : Nat}
    (hle : levels ≤ more) (candidate coverer : Check) (source : Source) :
    Deepens p (subsumed ⟨level, stem, levels⟩ p candidate coverer source)
      (subsumed ⟨level, stem, more⟩ p candidate coverer source) := by
  unfold subsumed
  refine .ite (.refl (steady_pure _)) (.ite ?_ ?_)
  · split
    · exact Match.deepens_sameShape p hle _ _
    · exact .refl (steady_pure _)
  · refine .bind (steady_sliceCheck _ _) fun own => ?_
    refine .bind (steady_refine p candidate coverer source own) fun (wanted, policy) => ?_
    exact .bind (steady_sliceCheck _ _) fun covering =>
      Match.deepens_sameLocation p policy hle wanted covering

end Strategy

namespace Request

open Compare

/-- A request with more levels to go: the same as without, or a comparison that is deepened. -/
theorem perform_eq_or_deepens (p : Program) {levels more : Nat} (hle : levels ≤ more)
    (r : Request) : r.perform p more = r.perform p levels ∨
      ∃ x y, Deepens p x y ∧ r.perform p levels = (do return .verdict (← x)) ∧
        r.perform p more = (do return .verdict (← y)) := by
  cases r with
  | slice root policy => exact .inl rfl
  | sliceOperand operand policy => exact .inl rfl
  | sliceCheck branch policy => exact .inl rfl
  | clear => exact .inl rfl
  | sameLocation a b policy =>
    exact .inr ⟨_, _, Match.deepens_sameLocation p policy hle a b, rfl, rfl⟩
  | sameShape a b => exact .inr ⟨_, _, Match.deepens_sameShape p hle a b, rfl, rfl⟩
  | subsumed level stem candidate coverer source =>
    exact .inr ⟨_, _, Strategy.deepens_subsumed p level stem hle candidate coverer source, rfl, rfl⟩

/-- Whatever was requested before, and of two sessions with different depth limits: what is accepted
within fewer levels is accepted within more; and if nothing was cut off within fewer levels, the
answer within more is the same, and nothing is cut off there either. -/
theorem perform_of_le (p : Program) {levels more : Nat} (hle : levels ≤ more)
    (earlier later : List Request) (r : Request) :
    ((r.perform p levels (sessionAfter p levels earlier)).1 = .verdict true →
      (r.perform p more (sessionAfter p more later)).1 = .verdict true) ∧
    ((r.perform p levels (sessionAfter p levels earlier)).2.cutOffs =
        (sessionAfter p levels earlier).cutOffs →
      (r.perform p more (sessionAfter p more later)).1 =
          (r.perform p levels (sessionAfter p levels earlier)).1 ∧
        (r.perform p more (sessionAfter p more later)).2.cutOffs =
          (sessionAfter p more later).cutOffs) := by
  have hfew := faithful_sessionAfter p levels earlier
  have hmany := faithful_sessionAfter p more later
  rw [(r.steady_perform p levels).value _ hfew, (r.steady_perform p more).value _ hmany,
    (r.steady_perform p levels).cutOffs _ hfew, (r.steady_perform p more).cutOffs _ hmany]
  simp only [Nat.add_eq_left]
  rcases r.perform_eq_or_deepens p hle with heq | ⟨x, y, hdeepens, hx, hy⟩
  · rw [heq]
    exact ⟨id, fun hcuts => ⟨rfl, hcuts⟩⟩
  · rw [hx, hy]
    refine ⟨fun haccepted => ?_, fun hcuts => ?_⟩
    · exact congrArg Answer.verdict (hdeepens.accepts (Answer.verdict.inj haccepted))
    · obtain ⟨hverdict, hnone⟩ := hdeepens.settled hcuts
      exact ⟨congrArg Answer.verdict hverdict, hnone⟩

open Build in
/-- An element of an array is read twice, each time at an address of its own with the same index. -/
def elementReads : Program :=
  let steps : Build Unit := do
    let main ← procedure "main"
    let body ← block main
    let array ← external "array"
    let cursor ← external "cursor"
    let index ← operation body .memoryRead [.external cursor]
    let place ← operation body .addressComputation [.external array, .node index]
    let place' ← operation body .addressComputation [.external array, .node index]
    let _ ← operation body .memoryRead [.node place]
    let _ ← operation body .memoryRead [.node place']
  (steps.run.run { name := "reads" }).2

/-- The comparison of the two reads by address. -/
def sameElement : Request :=
  .sameLocation (.singleton (.node ⟨3⟩)) (.singleton (.node ⟨4⟩)) (.ofKind .address)

/-- The comparison of the two reads is cut off within one level; within two it is not, and so it is
accepted within any larger number of levels. -/
theorem elementReads_perform_of_le :
    (perform elementReads 1 sameElement {}).1 = .verdict false ∧
    (perform elementReads 1 sameElement {}).2.cutOffs = 1 ∧
    2 ≤ 9 ∧
    (perform elementReads 9 sameElement (sessionAfter elementReads 9 [.slice ⟨3⟩ .value])).1 =
      .verdict true ∧
    (perform elementReads 9 sameElement
      (sessionAfter elementReads 9 [.slice ⟨3⟩ .value])).2.cutOffs =
        (sessionAfter elementReads 9 [.slice ⟨3⟩ .value]).cutOffs := by
  have hle : 2 ≤ 9 := by decide
  have hdeep := perform_of_le elementReads hle [] [.slice ⟨3⟩ .value] sameElement
  refine ⟨by decide +kernel, by decide +kernel, hle, hdeep.1 (by decide +kernel), ?_⟩
  exact (hdeep.2 (by decide +kernel)).2

end Request

end GuardElision
