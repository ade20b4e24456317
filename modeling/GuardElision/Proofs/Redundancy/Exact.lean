import GuardElision.Proofs.Redundancy.Entries

/-!
# Which checks a run enters

All that a run tests on behalf of a check, put together. Before the sanitizer checks take their
turns the ledger holds exactly the checks that something is offered for (`Analysis.Offered`).
On its turn a check is entered exactly if a sanitizer check that is not in the ledger at that
moment covers it. Since the ledger only grows, a check that is left at the end has no offer, and
no other check that is left covers it.
-/

namespace GuardElision

namespace Phases

open Compare

variable (s : Strategy) (p : Program) (d : Dominance) (checks : Inventory) (e : Evidence)

/-- On its turn a check is entered if a sanitizer check that precedes it and is not in the ledger
covers it. -/
private theorem contains_dominatedBySanitizer {a c : Check} {i j : Nat} {x y : BlockId} {l : Ledger}
    {session : Session} (hs : session.Faithful p) (hc : (c, j, some y) ∈ placed p checks)
    (hposition : j ≠ i) (hid : c.id ≠ a.id) (hlive : l.contains c.id = false)
    (hprecedes : precedes d y x = true) (hsub : (s.subsumed p a c .dominance).verdict = true) :
    (dominatedBySanitizer s p d e (placed p checks) (a, i, some x) l session).1.contains a.id =
      true := by
  have hmem : c ∈ coverersAt d l a i x (placed p checks) := by
    refine List.mem_filterMap.mpr ⟨(c, j, some y), hc, ?_⟩
    simp [hposition, hid, hlive, hprecedes]
  unfold dominatedBySanitizer
  dsimp only
  split
  · next hin => exact hin
  · next hnew =>
    rw [Bool.not_eq_true, Ledger.register_contains, Ledger.contains_eq_false_iff] at hnew
    exact contains_coverByFirst hs hnew hmem hsub

/-- A check whose place lets another one cover it is in the ledger after the turns, unless the
other one is. -/
theorem contains_turns {a c : Check} {i j : Nat} {x y : BlockId} (l : Ledger) {session : Session}
    (hs : session.Faithful p) (ha : (a, i, some x) ∈ placed p checks)
    (hc : (c, j, some y) ∈ placed p checks) (hposition : j ≠ i) (hid : c.id ≠ a.id)
    (hprecedes : precedes d y x = true) (hsub : (s.subsumed p a c .dominance).verdict = true)
    (hlive : (turns s p d checks e l session).1.contains c.id = false) :
    (turns s p d checks e l session).1.contains a.id = true := by
  have hround : ∀ item ∈ placed p checks, ∀ l, Grows p (SanitizerDominanceEntry s p d checks e) l
      (dominatedBySanitizer s p d e (placed p checks) item l) :=
    fun _ hitem => grows_turn s p d checks e hitem
  obtain ⟨before, session', hs', _, hafter⟩ := growth_around_round hround ha l hs
  -- what is not in the ledger at the end was not in it when `a` took its turn
  have hthen : before.contains c.id = false := by
    rw [← Bool.not_eq_true] at hlive ⊢
    intro hin
    exact hlive (hafter.contains ((hround _ ha before session' hs').1.contains hin))
  exact hafter.contains (contains_dominatedBySanitizer s p d checks e hs' hc hposition hid hthen
    hprecedes hsub)

end Phases

namespace Analysis

open Compare Phases

variable (s : Settings) (p : Program) (checks : Inventory) (f : Findings)

/-- What a run offers for a sanitizer check before the sanitizer checks take their turns, whatever
is in the ledger. -/
inductive Offered (candidate : Check) (reason : Reason) : Prop where
  /-- A user check ran as often. -/
  | user {sanitizer : SanitizerEvidence} {records : List Record} : s.phases.user = true →
      f.evidence.sanitizer = some sanitizer → f.evidence.user = some records →
      UserOffer (strategy s) p checks sanitizer.table records candidate reason →
      Offered candidate reason
  /-- An earlier sanitizer check ran as often. -/
  | earlier {sanitizer : SanitizerEvidence} {trace : TraceSource} {records : List Record} :
      s.phases.coverage = true → f.evidence.sanitizer = some sanitizer → f.trace = some trace →
      Trace.read checks.sanitizer trace = .ok records →
      EarlierOffer (strategy s) p checks sanitizer.table records candidate reason →
      Offered candidate reason
  /-- A user check dominates or post-dominates it. -/
  | dominance {coverer : Check} : s.phases.dominance = true →
      CoveredByUser (strategy s) p (.ofProgram p) checks f.evidence candidate coverer reason →
      Offered candidate reason

/-- All that happens before the sanitizer checks take their turns. -/
def beforeTurns : Pass := fun l =>
  (userPass s p checks f.evidence l >>= coverageLedger s p checks f) >>= byUsers s p checks f

/-- Before the sanitizer checks take their turns, the ledger holds the checks that something is
offered for, and no others. -/
private theorem settles_beforeTurns : Settles p (fun id reason => ∃ candidate, candidate.id = id ∧
      Offered s p checks f candidate reason) (beforeTurns s p checks f) := by
  refine (((settles_userPass s p checks f).seq (settles_coverageLedger s p checks f)).seq
    (settles_byUsersPass s p checks f)).congr fun id reason => ?_
  constructor
  · rintro ((⟨c, hid, _, _, hon, hs, hu, h⟩ | ⟨c, hid, _, _, _, hon, hs, ht, hd, h⟩) |
      ⟨c, hid, _, hon, h⟩)
    · exact ⟨c, hid, .user hon hs hu h⟩
    · exact ⟨c, hid, .earlier hon hs ht hd h⟩
    · exact ⟨c, hid, .dominance hon h⟩
  · rintro ⟨c, hid, hoffered⟩
    cases hoffered with
    | user hon hs hu h => exact .inl (.inl ⟨c, hid, _, _, hon, hs, hu, h⟩)
    | earlier hon hs ht hd h => exact .inl (.inr ⟨c, hid, _, _, _, hon, hs, ht, hd, h⟩)
    | dominance hon h => exact .inr ⟨c, hid, _, hon, h⟩

/-- Whatever is in the ledger of a run was offered, or entered on a turn in favour of a sanitizer
check that was live at that moment. -/
theorem ledger_entry {id : CheckId} {reason : Reason}
    (h : (ledger s p checks f).1.find? id = some reason) : ∃ candidate, candidate.id = id ∧
      (Offered s p checks f candidate reason ∨ s.phases.dominance = true ∧ ∃ l coverer,
        CoveredBySanitizer (strategy s) p (.ofProgram p) checks f.evidence l candidate coverer
          reason) := by
  obtain ⟨hgrow, hfaithful⟩ :=
    (settles_beforeTurns s p checks f).grows .empty {} (Session.faithful_fresh p)
  rw [ledger_eq] at h
  rcases (grows_bySanitizers s p checks f _ _ hfaithful).1.cases_find? h with
    h | ⟨l, hon, candidate, coverer, hid, hcovered⟩
  · rcases hgrow.cases_find? h with h | ⟨_, candidate, hid, hoffered⟩
    · cases h
    · exact ⟨candidate, hid, .inl hoffered⟩
  · exact ⟨candidate, hid, .inr ⟨hon, l, coverer, hcovered⟩⟩

/-- A check that something is offered for is in the ledger of a run. -/
theorem ledger_contains_of_offered {candidate : Check} {reason : Reason}
    (h : Offered s p checks f candidate reason) :
    (ledger s p checks f).1.contains candidate.id = true := by
  have hfresh := Session.faithful_fresh p
  have hsettles := settles_beforeTurns s p checks f
  obtain ⟨_, hfaithful⟩ := hsettles.grows .empty {} hfresh
  rw [ledger_eq]
  exact (grows_bySanitizers s p checks f _ _ hfaithful).1.contains
    (hsettles.complete .empty {} hfresh candidate.id reason ⟨candidate, rfl, h⟩)

/-- Of two sanitizer checks of which one precedes and covers the other, one is in the ledger of a
run. -/
theorem ledger_contains_of_precedes {a c : Check} {i j : Nat} {x y : BlockId}
    (hon : s.phases.dominance = true) (ha : (a, i, some x) ∈ placed p checks)
    (hc : (c, j, some y) ∈ placed p checks) (hposition : j ≠ i) (hid : c.id ≠ a.id)
    (hprecedes : precedes (.ofProgram p) y x = true)
    (hsub : ((strategy s).subsumed p a c .dominance).verdict = true)
    (hlive : (ledger s p checks f).1.contains c.id = false) :
    (ledger s p checks f).1.contains a.id = true := by
  obtain ⟨_, hfaithful⟩ :=
    (settles_beforeTurns s p checks f).grows .empty {} (Session.faithful_fresh p)
  have hturns : bySanitizers s p checks f =
      turns (strategy s) p (.ofProgram p) checks f.evidence := by
    rw [bySanitizers, if_pos hon]
  rw [ledger_eq, hturns] at hlive ⊢
  exact contains_turns (strategy s) p (.ofProgram p) checks f.evidence _ hfaithful ha hc hposition
    hid hprecedes hsub hlive

end Analysis

end GuardElision
