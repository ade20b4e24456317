import GuardElision.Proofs.Redundancy.Offers
import GuardElision.Run.Analysis

/-!
# The entries of each phase

The first phase enters sanitizer checks in favour of user checks, the second in favour of
sanitizer checks that come earlier in the enumeration. The third phase makes two kinds of
entries, one after the other: in favour of user checks by their own blocks, then in favour of
sanitizer checks that are not in the ledger at that moment, by effective blocks. A whole run
is one such growth after the other, from the empty ledger.
-/

namespace GuardElision.Phases

open Compare

/-- A sanitizer check is entered in favour of a user check. -/
def UserEntry (checks : Inventory) (_ : Ledger) (id : CheckId) (reason : Reason) : Prop :=
  reason.phase = .user ∧ (∃ c ∈ checks.sanitizer, c.id = id) ∧
    ∃ u ∈ checks.user, u.id = reason.coverer

/-- A sanitizer check is entered in favour of one that is enumerated before it. -/
def CoverageEntry (checks : Inventory) (_ : Ledger) (id : CheckId) (reason : Reason) : Prop :=
  reason.phase = .coverage ∧ ∃ (i j : Nat) (c e : Check), j < i ∧
    checks.sanitizer[i]? = some c ∧ c.id = id ∧
    checks.sanitizer[j]? = some e ∧ e.id = reason.coverer

/-- A user check stands where it dominates or post-dominates a sanitizer check that it covers. -/
structure CoveredByUser (s : Strategy) (p : Program) (d : Dominance) (checks : Inventory)
    (e : Evidence) (candidate coverer : Check) (reason : Reason) : Prop where
  candidate_mem : candidate ∈ checks.sanitizer
  coverer_mem : coverer ∈ checks.user
  /-- The two checks are where the relation is asked for. -/
  placed : ∃ a b, p.ownBlock? candidate = some a ∧ p.ownBlock? coverer = some b ∧
    onEveryRun d b a = true
  subsumed : (s.subsumed p candidate coverer .dominance).verdict = true
  reason_eq : reason = ⟨e.totalOf candidate.id, .dominance, coverer.id⟩

/-- A sanitizer check that is not in the ledger stands where it precedes another one that it
covers. -/
structure CoveredBySanitizer (s : Strategy) (p : Program) (d : Dominance)
    (checks : Inventory) (e : Evidence) (l : Ledger) (candidate coverer : Check)
    (reason : Reason) : Prop where
  coverer_live : l.find? coverer.id = none
  ids_ne : coverer.id ≠ candidate.id
  /-- The two checks stand at different positions, where the relation is asked for. -/
  placed : ∃ i j a b, (candidate, i, some a) ∈ placed p checks ∧
    (coverer, j, some b) ∈ placed p checks ∧ j ≠ i ∧ precedes d b a = true
  subsumed : (s.subsumed p candidate coverer .dominance).verdict = true
  reason_eq : reason = ⟨e.totalOf candidate.id, .dominance, coverer.id⟩

/-- A sanitizer check is entered in favour of a user check, by dominance. -/
def UserDominanceEntry (s : Strategy) (p : Program) (d : Dominance) (checks : Inventory)
    (e : Evidence) (_ : Ledger) (id : CheckId) (reason : Reason) : Prop :=
  ∃ candidate coverer, candidate.id = id ∧ CoveredByUser s p d checks e candidate coverer reason

/-- A sanitizer check is entered in favour of a live one, by dominance. -/
def SanitizerDominanceEntry (s : Strategy) (p : Program) (d : Dominance) (checks : Inventory)
    (e : Evidence) (l : Ledger) (id : CheckId) (reason : Reason) : Prop :=
  ∃ candidate coverer, candidate.id = id ∧
    CoveredBySanitizer s p d checks e l candidate coverer reason

section FirstTwo

variable {s : Strategy} {p : Program} {checks : Inventory} {table : PatternTable}
  {records : List Record} {candidate : Check} {reason : Reason}

theorem UserOffer.entry (h : UserOffer s p checks table records candidate reason) (l : Ledger) :
    UserEntry checks l candidate.id reason := by
  obtain ⟨coverer, r, hmem, count, entry, _, hget, _, rfl⟩ := h
  exact ⟨rfl, ⟨candidate, List.mem_of_getElem? hget, rfl⟩, coverer, (List.of_mem_zip hmem).1, rfl⟩

theorem EarlierOffer.entry (h : EarlierOffer s p checks table records candidate reason)
    (l : Ledger) : CoverageEntry checks l candidate.id reason := by
  obtain ⟨ordinal, r, hc, _, _, entry, coverer, _, hmatch, hget, _, rfl⟩ := h
  have hlt : entry.ordinal < ordinal := by
    simp only [earlierMatch, Bool.and_eq_true, decide_eq_true_eq] at hmatch
    exact hmatch.1.1
  exact ⟨rfl, ordinal, entry.ordinal, candidate, coverer, hlt, hc, rfl, hget, rfl⟩

end FirstTwo

section Dominance

variable (s : Strategy) (p : Program) (d : Dominance) (checks : Inventory) (e : Evidence)

/-- A sanitizer check is placed at its position, in the effective block of its cone. -/
theorem mem_placed_iff (c : Check) (i : Nat) (block : Option BlockId) :
    (c, i, block) ∈ placed p checks ↔
      checks.sanitizer[i]? = some c ∧ p.effectiveBlock? c ((checks.cones[i]?).getD []) = block := by
  simp only [placed, List.mem_map, Prod.mk.injEq, Prod.exists]
  constructor
  · rintro ⟨c', i', hmem, rfl, rfl, rfl⟩
    exact ⟨List.mem_zipIdx_iff_getElem?.mp hmem, rfl⟩
  · rintro ⟨hget, rfl⟩
    exact ⟨c, i, List.mem_zipIdx_iff_getElem?.mpr hget, rfl, rfl, rfl⟩

private theorem settles_dominatedByUser {coverer candidate : Check}
    (hcoverer : coverer ∈ checks.user) (hcandidate : candidate ∈ checks.sanitizer) :
    Settles p (fun id reason => candidate.id = id ∧
        CoveredByUser s p d checks e candidate coverer reason)
      (dominatedByUser s p d e coverer candidate) := by
  unfold dominatedByUser
  cases hb : p.ownBlock? coverer with
  | none =>
    refine settles_pure.congr fun id reason => ⟨False.elim, fun h => ?_⟩
    obtain ⟨_, _, _, hb', _⟩ := h.2.placed
    cases hb.symm.trans hb'
  | some b =>
    cases ha : p.ownBlock? candidate with
    | none =>
      refine settles_pure.congr fun id reason => ⟨False.elim, fun h => ?_⟩
      obtain ⟨_, _, ha', _⟩ := h.2.placed
      cases ha.symm.trans ha'
    | some a =>
      dsimp only
      by_cases hrun : onEveryRun d b a = true
      · simp only [hrun, if_true]
        refine (settles_consider (s.steady_subsumed p candidate coverer .dominance)).congr
          fun id reason => ?_
        constructor
        · rintro ⟨rfl, hsub, rfl⟩
          exact ⟨rfl, hcandidate, hcoverer, ⟨a, b, ha, hb, hrun⟩, hsub, rfl⟩
        · rintro ⟨rfl, h⟩
          exact ⟨rfl, h.subsumed, h.reason_eq⟩
      · simp only [hrun]
        refine settles_pure.congr fun id reason => ⟨False.elim, fun h => ?_⟩
        obtain ⟨a', b', ha', hb', hrun'⟩ := h.2.placed
        obtain rfl := Option.some.inj (ha.symm.trans ha')
        obtain rfl := Option.some.inj (hb.symm.trans hb')
        exact hrun hrun'

/-- On its turn a sanitizer check is entered in favour of a live one, or nothing is. -/
theorem grows_dominatedBySanitizer {check : Check} {position : Nat} {block : Option BlockId}
    (hcandidate : (check, position, block) ∈ placed p checks) (l : Ledger) :
    Grows p (fun l id reason => id = check.id ∧
        ∃ coverer, CoveredBySanitizer s p d checks e l check coverer reason) l
      (dominatedBySanitizer s p d e (placed p checks) (check, position, block) l) := by
  cases block with
  | none => exact grows_pure
  | some a =>
    refine Grows.ite (fun _ => grows_pure) fun hnew => ?_
    rw [Bool.not_eq_true, Ledger.register_contains, Ledger.contains_eq_false_iff] at hnew
    refine grows_coverByFirst hnew fun c hfirst => ?_
    have hsub := List.find?_some hfirst
    obtain ⟨⟨c', j, block⟩, hmem, hsome⟩ :=
      List.mem_filterMap.mp (List.mem_of_find?_eq_some hfirst)
    cases block with
    | none => simp at hsome
    | some b =>
      simp only [Option.ite_none_right_eq_some, Bool.and_eq_true, bne_iff_ne, ne_eq,
        Bool.not_eq_true', Ledger.register_contains, Ledger.contains_eq_false_iff, Option.some.injEq] at hsome
      obtain ⟨⟨⟨⟨hpos, hid⟩, hlive⟩, hrel⟩, rfl⟩ := hsome
      exact ⟨rfl, c', hlive, hid, ⟨position, j, a, b, hcandidate, hmem, hpos, hrel⟩, hsub, rfl⟩

/-- Before the sanitizer checks take their turns, the checks that user checks cover are entered,
and no others. -/
theorem settles_byUsers : Settles p (fun id reason => ∃ candidate coverer, candidate.id = id ∧
      CoveredByUser s p d checks e candidate coverer reason)
    (each checks.user fun coverer => each checks.sanitizer (dominatedByUser s p d e coverer)) := by
  refine (settles_each fun coverer hcoverer => settles_each fun candidate hcandidate =>
    settles_dominatedByUser s p d checks e hcoverer hcandidate).congr fun id reason => ?_
  constructor
  · rintro ⟨coverer, _, candidate, _, hid, hcovered⟩
    exact ⟨candidate, coverer, hid, hcovered⟩
  · rintro ⟨candidate, coverer, hid, hcovered⟩
    exact ⟨coverer, hcovered.coverer_mem, candidate, hcovered.candidate_mem, hid, hcovered⟩

theorem grows_byUsers (l : Ledger) : Grows p (UserDominanceEntry s p d checks e) l
    (each checks.user
      (fun coverer => each checks.sanitizer (dominatedByUser s p d e coverer)) l) :=
  (settles_byUsers s p d checks e).grows l

/-- A turn enters a sanitizer check in favour of a live one, or nothing. -/
theorem grows_turn {item : Check × Nat × Option BlockId} (hitem : item ∈ placed p checks)
    (l : Ledger) : Grows p (SanitizerDominanceEntry s p d checks e) l
      (dominatedBySanitizer s p d e (placed p checks) item l) := by
  obtain ⟨check, position, block⟩ := item
  refine (grows_dominatedBySanitizer s p d checks e hitem l).mono fun l id reason h => ?_
  obtain ⟨hid, coverer, hcovered⟩ := h
  exact ⟨check, coverer, hid.symm, hcovered⟩

/-- The turns of the sanitizer checks. -/
def turns : Pass :=
  each (placed p checks) (dominatedBySanitizer s p d e (placed p checks))

theorem grows_turns (l : Ledger) :
    Grows p (SanitizerDominanceEntry s p d checks e) l (turns s p d checks e l) :=
  grows_each (fun _ hitem => grows_turn s p d checks e hitem) l

end Dominance

end GuardElision.Phases

namespace GuardElision.Analysis

open Compare Phases

variable (s : Settings) (p : Program) (checks : Inventory) (f : Findings)

/-- The second phase without its warnings. -/
def coverageLedger : Pass := fun l => Prod.fst <$> coveragePass s p checks f l

/-- The first half of the third phase, if it is enabled. -/
def byUsers : Pass :=
  if s.phases.dominance then
    each checks.user fun coverer =>
      each checks.sanitizer (dominatedByUser (strategy s) p (.ofProgram p) f.evidence coverer)
  else pure

/-- The second half of the third phase, if it is enabled. -/
def bySanitizers : Pass :=
  if s.phases.dominance then turns (strategy s) p (.ofProgram p) checks f.evidence else pure

theorem settles_userPass : Settles p (fun id reason => ∃ candidate, candidate.id = id ∧
      ∃ sanitizer records, s.phases.user = true ∧ f.evidence.sanitizer = some sanitizer ∧
        f.evidence.user = some records ∧
        UserOffer (strategy s) p checks sanitizer.table records candidate reason)
    (userPass s p checks f.evidence) := by
  unfold userPass
  cases hsanitizer : f.evidence.sanitizer with
  | none => exact settles_pure.congr fun _ _ => by simp
  | some sanitizer =>
    cases huser : f.evidence.user with
    | none => exact settles_pure.congr fun _ _ => by simp
    | some records =>
      cases hon : s.phases.user
      · exact settles_pure.congr fun _ _ => by simp
      · exact (settles_user (strategy s) p checks sanitizer.table records).congr
          fun _ _ => by simp

theorem settles_coverageLedger : Settles p (fun id reason => ∃ candidate, candidate.id = id ∧
      ∃ sanitizer trace records, s.phases.coverage = true ∧
        f.evidence.sanitizer = some sanitizer ∧ f.trace = some trace ∧
        Trace.read checks.sanitizer trace = .ok records ∧
        EarlierOffer (strategy s) p checks sanitizer.table records candidate reason)
    (coverageLedger s p checks f) := by
  unfold coverageLedger coveragePass
  cases hsanitizer : f.evidence.sanitizer with
  | none => exact settles_pure.congr fun _ _ => by simp
  | some sanitizer =>
    cases htrace : f.trace with
    | none => exact settles_pure.congr fun _ _ => by simp
    | some trace =>
      cases hon : s.phases.coverage
      · exact settles_pure.congr fun _ _ => by simp
      · dsimp only
        cases hread : Trace.read checks.sanitizer trace with
        | error cause => exact settles_pure.congr fun _ _ => by simp [hread]
        | ok records =>
          exact (settles_coverage (strategy s) p checks sanitizer.table records).congr
            fun _ _ => by simp [hread]

theorem settles_byUsersPass : Settles p (fun id reason => ∃ candidate, candidate.id = id ∧
      ∃ coverer, s.phases.dominance = true ∧
        CoveredByUser (strategy s) p (.ofProgram p) checks f.evidence candidate coverer reason)
    (byUsers s p checks f) := by
  unfold byUsers
  cases hon : s.phases.dominance
  · exact settles_pure.congr fun _ _ => by simp
  · exact (settles_byUsers (strategy s) p (.ofProgram p) checks f.evidence).congr
      fun _ _ => by simp

theorem grows_bySanitizers (l : Ledger) :
    Grows p (fun l id reason => s.phases.dominance = true ∧
        SanitizerDominanceEntry (strategy s) p (.ofProgram p) checks f.evidence l id reason) l
      (bySanitizers s p checks f l) := by
  unfold bySanitizers
  cases s.phases.dominance
  · exact grows_pure
  · exact (grows_turns (strategy s) p (.ofProgram p) checks f.evidence l).mono
      fun _ _ _ h => ⟨rfl, h⟩

/-- All phases, one after the other. -/
theorem ledger_eq : (ledger s p checks f).1 =
    ((((userPass s p checks f.evidence .empty >>= coverageLedger s p checks f) >>=
      byUsers s p checks f) >>= bySanitizers s p checks f) {}).1 := by
  unfold ledger phases byUsers bySanitizers dominancePass
  cases s.phases.dominance <;> rfl

/-- A run grows the empty ledger by the entries of each phase in turn; a phase that is switched
off enters nothing. -/
theorem ledger_growth : ∃ l₁ l₂ l₃,
    Ledger.Growth (UserEntry checks) .empty l₁ ∧
    Ledger.Growth (CoverageEntry checks) l₁ l₂ ∧
    Ledger.Growth (UserDominanceEntry (strategy s) p (.ofProgram p) checks f.evidence) l₂ l₃ ∧
    Ledger.Growth (SanitizerDominanceEntry (strategy s) p (.ofProgram p) checks f.evidence) l₃
      (ledger s p checks f).1 ∧
    (s.phases.user = false → l₁ = .empty) ∧ (s.phases.coverage = false → l₂ = l₁) := by
  obtain ⟨hgrow₁, hfaithful₁⟩ :=
    (settles_userPass s p checks f).grows .empty {} (Session.faithful_fresh p)
  obtain ⟨hgrow₂, hfaithful₂⟩ := (settles_coverageLedger s p checks f).grows _ _ hfaithful₁
  obtain ⟨hgrow₃, hfaithful₃⟩ := (settles_byUsersPass s p checks f).grows _ _ hfaithful₂
  obtain ⟨hgrow₄, _⟩ := grows_bySanitizers s p checks f _ _ hfaithful₃
  refine ⟨_, _, _, hgrow₁.mono ?_, hgrow₂.mono ?_, hgrow₃.mono ?_,
    ledger_eq s p checks f ▸ hgrow₄.mono fun _ _ _ h => h.2, fun hoff => ?_, fun hoff => ?_⟩
  · rintro l _ reason ⟨candidate, rfl, _, _, _, _, _, hoffer⟩
    exact hoffer.entry l
  · rintro l _ reason ⟨candidate, rfl, _, _, _, _, _, _, _, hoffer⟩
    exact hoffer.entry l
  · rintro l id reason ⟨candidate, hid, coverer, _, hcovered⟩
    exact ⟨candidate, coverer, hid, hcovered⟩
  · refine hgrow₁.eq_of_forall_not ?_
    rintro _ _ _ ⟨_, _, _, _, hon, _⟩
    simp [hon] at hoff
  · refine hgrow₂.eq_of_forall_not ?_
    rintro _ _ _ ⟨_, _, _, _, _, hon, _⟩
    simp [hon] at hoff

end GuardElision.Analysis
