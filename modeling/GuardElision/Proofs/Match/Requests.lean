import GuardElision.Proofs.Match.Session

/-!
# What a session is asked for

Slices and comparisons of one program are requested from one session, in any order and any
number, and its memory may be cleared in between. Each request is steady, so every session
that such a sequence leads to is faithful, and the next request is answered in it as it would
be in a fresh session. Only the counts of remembered slices tell the two apart.
-/

namespace GuardElision

/-- Something to ask of a session. -/
inductive Request where
  | slice (root : NodeId) (policy : LeafPolicy)
  | sliceOperand (operand : Operand) (policy : LeafPolicy)
  | sliceCheck (branch : NodeId) (policy : LeafPolicy)
  /-- Forget every slice. -/
  | clear
  | sameLocation (a b : Fingerprint) (policy : MatchPolicy)
  | sameShape (a b : Operand)
  | subsumed (level : Level) (stem : String) (candidate coverer : Check) (source : Source)

/-- What a request is answered with. -/
inductive Answer where
  | fingerprint (found : Fingerprint)
  | verdict (holds : Bool)
  /-- The memory is empty; nothing was asked about the program. -/
  | cleared
  deriving DecidableEq

namespace Request

/-- Answer a request about a program, with the given number of levels for comparisons. -/
def perform (p : Program) (maxDepth : Nat) : Request → Compare Answer
  | .slice root policy => do return .fingerprint (← Compare.slice p policy root)
  | .sliceOperand operand policy => do
    return .fingerprint (← Compare.sliceOperand p policy operand)
  | .sliceCheck branch policy => do return .fingerprint (← Compare.sliceCheck p policy branch)
  | .clear => fun s => (.cleared, { s with slicer := s.slicer.clear.2 })
  | .sameLocation a b policy => do return .verdict (← Match.sameLocation p policy maxDepth a b)
  | .sameShape a b => do return .verdict (← Match.sameShape p maxDepth a b)
  | .subsumed level stem candidate coverer source => do
    return .verdict (← Strategy.subsumed ⟨level, stem, maxDepth⟩ p candidate coverer source)

/-- The session that a sequence of requests leads to, from a fresh one. -/
def sessionAfter (p : Program) (maxDepth : Nat) (earlier : List Request) : Session :=
  earlier.foldl (fun s r => (r.perform p maxDepth s).2) {}

open Compare

/-- No request is answered by what was remembered before it. -/
theorem steady_perform (p : Program) (maxDepth : Nat) (r : Request) :
    Steady p (r.perform p maxDepth) := by
  cases r with
  | slice root policy => exact (steady_slice policy root).bind fun _ => steady_pure _
  | sliceOperand operand policy =>
    exact (steady_sliceOperand policy operand).bind fun _ => steady_pure _
  | sliceCheck branch policy => exact (steady_sliceCheck policy branch).bind fun _ => steady_pure _
  | clear =>
    refine ⟨fun _ _ => rfl, fun _ _ => rfl, fun s _ => ?_⟩
    intro root policy found h
    simp [perform, Slicer.clear] at h
  | sameLocation a b policy =>
    exact (Match.steady_sameLocation p policy maxDepth a b).bind fun _ => steady_pure _
  | sameShape a b => exact (Match.steady_sameShape p maxDepth a b).bind fun _ => steady_pure _
  | subsumed level stem candidate coverer source =>
    exact (Strategy.steady_subsumed ⟨level, stem, maxDepth⟩ p candidate coverer source).bind
      fun _ => steady_pure _

/-- Requests leave a faithful session faithful. -/
theorem faithful_foldl (p : Program) (maxDepth : Nat) (requests : List Request) {s : Session}
    (hs : s.Faithful p) :
    (requests.foldl (fun s r => (r.perform p maxDepth s).2) s).Faithful p := by
  induction requests generalizing s with
  | nil => exact hs
  | cons r rest ih => exact ih ((r.steady_perform p maxDepth).faithful s hs)

/-- Every session that requests lead to is faithful. -/
theorem faithful_sessionAfter (p : Program) (maxDepth : Nat) (earlier : List Request) :
    (sessionAfter p maxDepth earlier).Faithful p :=
  faithful_foldl p maxDepth earlier (Session.faithful_fresh p)

/-- Whatever was requested before, a request gets the answer and adds the cut-offs that it would
get and add in a fresh session. -/
theorem perform_sessionAfter (p : Program) (maxDepth : Nat) (earlier : List Request)
    (r : Request) :
    (r.perform p maxDepth (sessionAfter p maxDepth earlier)).1 = (r.perform p maxDepth {}).1 ∧
      (r.perform p maxDepth (sessionAfter p maxDepth earlier)).2.cutOffs =
        (sessionAfter p maxDepth earlier).cutOffs + (r.perform p maxDepth {}).2.cutOffs := by
  have hsteady := r.steady_perform p maxDepth
  have hfaithful := faithful_sessionAfter p maxDepth earlier
  exact ⟨hsteady.value _ hfaithful, hsteady.cutOffs _ hfaithful⟩

end Request

end GuardElision
