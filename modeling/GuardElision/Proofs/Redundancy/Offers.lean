import GuardElision.Proofs.Redundancy.Growth

/-!
# What a phase offers is entered

Until the sanitizer checks take their turns, what a phase enters does not depend on the ledger:
a list of offers is gone through, each for a check, with a reason and a comparison, and a check
is entered with the first offer whose comparison succeeds. Such a pass is described by its
offers alone (`Phases.Settles`): it makes no entry that is not offered, and afterwards every
check with an offer is in the ledger. Both halves pass through sequencing and loops together.
-/

namespace GuardElision

namespace Ledger

theorem contains_iff (l : Ledger) (id : CheckId) :
    l.contains id = true ↔ ∃ reason, l.find? id = some reason := by
  simp [SortedMap.contains, Option.isSome_iff_exists]

theorem contains_mark {l : Ledger} {id : CheckId} (h : l.find? id = none) (reason : Reason) :
    (mark l id reason).contains id = true := by
  rw [contains_iff]
  exact ⟨reason, by rw [find?_mark h, if_pos rfl]⟩

/-- A check that is in the ledger stays there. -/
theorem Growth.contains {allowed : Ledger → CheckId → Reason → Prop} {a b : Ledger}
    (h : Growth allowed a b) {id : CheckId} (ha : a.contains id = true) : b.contains id = true := by
  obtain ⟨reason, hreason⟩ := (contains_iff a id).mp ha
  exact (contains_iff b id).mpr ⟨reason, h.find?_eq_some hreason⟩

end Ledger

namespace Phases

open Compare

/-- From every ledger and in every faithful session, a pass makes only entries that are offered, and
leaves out no check with an offer. -/
structure Settles (p : Program) (offer : CheckId → Reason → Prop) (pass : Pass) : Prop where
  grows : ∀ l, Grows p (fun _ => offer) l (pass l)
  complete : ∀ l s, s.Faithful p → ∀ id reason, offer id reason →
    (pass l s).1.contains id = true

variable {p : Program} {offer other : CheckId → Reason → Prop} {first second pass : Pass}

/-- Offers may be described in another way. -/
theorem Settles.congr (h : Settles p offer pass)
    (hiff : ∀ id reason, offer id reason ↔ other id reason) : Settles p other pass := by
  have heq : offer = other := by
    funext id reason
    exact propext (hiff id reason)
  exact heq ▸ h

/-- An offer may be described by less than all there is to say about it, as long as nothing is
described that is not offered at all. -/
theorem Settles.weaken (h : Settles p offer pass)
    (himp : ∀ id reason, offer id reason → other id reason)
    (hsome : ∀ id reason, other id reason → ∃ better, offer id better) : Settles p other pass := by
  refine ⟨fun l => (h.grows l).mono fun _ => himp, fun l s hs id reason hother => ?_⟩
  obtain ⟨better, hoffer⟩ := hsome id reason hother
  exact h.complete l s hs id better hoffer

theorem settles_pure : Settles p (fun _ _ => False) pure :=
  ⟨fun _ => grows_pure, fun _ _ _ _ _ h => h.elim⟩

/-- Two passes in a row offer what either of them offers. -/
theorem Settles.seq (hfirst : Settles p offer first) (hsecond : Settles p other second) :
    Settles p (fun id reason => offer id reason ∨ other id reason)
      (fun l => first l >>= second) := by
  refine ⟨fun l => ?_, fun l s hs id reason hoffer => ?_⟩
  · refine Grows.bind ((hfirst.grows l).mono fun _ _ _ h => .inl h) fun l' => ?_
    exact (hsecond.grows l').mono fun _ _ _ h => .inr h
  · obtain ⟨_, hfaithful⟩ := hfirst.grows l s hs
    rcases hoffer with h | h
    · exact (hsecond.grows _ _ hfaithful).1.contains (hfirst.complete l s hs id reason h)
    · exact hsecond.complete _ _ hfaithful id reason h

/-- A loop offers what one of its rounds offers. -/
theorem settles_each {α : Type} {items : List α} {pass : α → Pass}
    {offer : α → CheckId → Reason → Prop} (h : ∀ x ∈ items, Settles p (offer x) (pass x)) :
    Settles p (fun id reason => ∃ x ∈ items, offer x id reason) (each items pass) := by
  induction items with
  | nil => exact settles_pure.congr fun _ _ => by simp
  | cons x rest ih =>
    have hrest := ih fun y hy => h y (List.mem_cons_of_mem x hy)
    exact ((h x List.mem_cons_self).seq hrest).congr fun _ _ => by simp

theorem settles_consider {candidate coverer : Check} {phase : Phase} {count : Count}
    {covered : Compare Bool} (hsteady : Steady p covered) :
    Settles p (fun id reason => id = candidate.id ∧ covered.verdict = true ∧
        reason = { count, phase, coverer := coverer.id })
      (consider candidate coverer phase count covered) := by
  refine ⟨fun l => grows_consider hsteady fun hcovered => ⟨rfl, hcovered, rfl⟩, ?_⟩
  rintro l s hs _ _ ⟨rfl, hcovered, rfl⟩
  unfold consider
  split
  · next hin => exact hin
  · next hnew =>
    rw [Bool.not_eq_true, Ledger.register_contains, Ledger.contains_eq_false_iff] at hnew
    rw [hsteady.bind_apply hs, if_pos hcovered]
    exact Ledger.contains_mark hnew _

/-- A check that is not in the ledger is entered when one of some checks covers it. -/
theorem contains_coverByFirst {s : Strategy} {candidate c : Check} {source : Source} {phase : Phase}
    {count : Count} {coverers : List Check} {l : Ledger} {session : Session}
    (hs : session.Faithful p) (hnew : l.find? candidate.id = none) (hc : c ∈ coverers)
    (hsub : (s.subsumed p candidate c source).verdict = true) :
    (coverByFirst s p candidate source phase count coverers l session).1.contains candidate.id =
      true := by
  have hfound : (coverers.find? fun c => (s.subsumed p candidate c source).verdict).isSome = true :=
    List.find?_isSome.mpr ⟨c, hc, hsub⟩
  obtain ⟨d, hd⟩ := Option.isSome_iff_exists.mp hfound
  rw [coverByFirst, (steady_firstCoverer s candidate source coverers).bind_apply hs,
    verdict_firstCoverer, hd]
  exact Ledger.contains_mark hnew _

section FirstTwo

/-- How the record of a user check finds an entry of the table: by its total, else by its left
count, else by its right count. A side finds one-sided entries only. -/
inductive Probe (table : PatternTable) (r : Record) : Count → PatternEntry → Prop where
  | total {entry : PatternEntry} : usable table r.total = true →
      entry ∈ PatternTable.bucket table r.total → Probe table r r.total entry
  | left {entry : PatternEntry} : usable table r.total = false → usable table r.left = true →
      entry ∈ PatternTable.bucket table r.left → entry.isOneSided = true →
      Probe table r r.left entry
  | right {entry : PatternEntry} : usable table r.total = false → usable table r.left = false →
      usable table r.right = true → entry ∈ PatternTable.bucket table r.right →
      entry.isOneSided = true → Probe table r r.right entry

/-- The user check of a record covers the check of an entry that its record found. -/
def ProbeCovers (s : Strategy) (p : Program) (table : PatternTable) (r : Record)
    (entry : PatternEntry) (candidate coverer : Check) : Prop :=
  if usable table r.total = true then
    s.isInductionGuard p candidate = true ∨ r.sameSplit entry.left entry.right = true ∧
      (s.subsumed p candidate coverer .coverage).verdict = true
  else (s.subsumed p candidate coverer .coverage).verdict = true

/-- What a user check offers in the first phase. -/
def RecordOffer (s : Strategy) (p : Program) (checks : Inventory) (table : PatternTable)
    (coverer : Check) (r : Record) (candidate : Check) (reason : Reason) : Prop :=
  ∃ count entry, Probe table r count entry ∧ checks.sanitizer[entry.ordinal]? = some candidate ∧
    ProbeCovers s p table r entry candidate coverer ∧ reason = ⟨count, .user, coverer.id⟩

/-- What the first phase offers. -/
def UserOffer (s : Strategy) (p : Program) (checks : Inventory) (table : PatternTable)
    (records : List Record) (candidate : Check) (reason : Reason) : Prop :=
  ∃ coverer r, (coverer, r) ∈ checks.user.zip records ∧
    RecordOffer s p checks table coverer r candidate reason

/-- What the second phase offers. -/
def EarlierOffer (s : Strategy) (p : Program) (checks : Inventory) (table : PatternTable)
    (records : List Record) (candidate : Check) (reason : Reason) : Prop :=
  ∃ ordinal r, checks.sanitizer[ordinal]? = some candidate ∧ records[ordinal]? = some r ∧
    r.total ≠ 0 ∧ ∃ entry coverer, entry ∈ PatternTable.bucket table r.total ∧
    earlierMatch ordinal candidate r entry = true ∧
    checks.sanitizer[entry.ordinal]? = some coverer ∧
    (s.subsumed p candidate coverer .coverage).verdict = true ∧
    reason = ⟨r.total, .coverage, coverer.id⟩

/-- The earlier sanitizer checks that the second phase compares a check with. -/
def earlierChecks (checks : Inventory) (table : PatternTable) (ordinal : Nat) (candidate : Check)
    (r : Record) : List Check :=
  ((PatternTable.bucket table r.total).filter (earlierMatch ordinal candidate r)).filterMap
    fun entry => checks.sanitizer[entry.ordinal]?

/-- What the second phase offers, with the check that it names. -/
def EarliestOffer (s : Strategy) (p : Program) (checks : Inventory) (table : PatternTable)
    (records : List Record) (candidate : Check) (reason : Reason) : Prop :=
  ∃ ordinal r, checks.sanitizer[ordinal]? = some candidate ∧ records[ordinal]? = some r ∧
    r.total ≠ 0 ∧ ∃ coverer,
    (earlierChecks checks table ordinal candidate r).find?
      (fun c => (s.subsumed p candidate c .coverage).verdict) = some coverer ∧
    reason = ⟨r.total, .coverage, coverer.id⟩

variable (s : Strategy) (p : Program) (checks : Inventory) (table : PatternTable)

private theorem settles_considerEntry (coverer : Check) (count : Count) (entry : PatternEntry)
    {covered : Check → Compare Bool} (hsteady : ∀ c, Steady p (covered c)) :
    Settles p (fun id reason => ∃ candidate, candidate.id = id ∧
        checks.sanitizer[entry.ordinal]? = some candidate ∧ (covered candidate).verdict = true ∧
        reason = ⟨count, .user, coverer.id⟩)
      (considerEntry checks coverer count entry covered) := by
  unfold considerEntry
  split
  · next candidate hcandidate =>
    refine (settles_consider (hsteady candidate)).congr fun id reason => ?_
    simp only [hcandidate, Option.some.injEq]
    constructor
    · rintro ⟨rfl, hcovered, rfl⟩
      exact ⟨candidate, rfl, rfl, hcovered, rfl⟩
    · rintro ⟨_, rfl, rfl, hcovered, rfl⟩
      exact ⟨rfl, hcovered, rfl⟩
  · next hnone => exact settles_pure.congr fun id reason => by simp [hnone]

private theorem settles_sameTotal (coverer : Check) {r : Record}
    (husable : usable table r.total = true) :
    Settles p (fun id reason => ∃ candidate, candidate.id = id ∧
        RecordOffer s p checks table coverer r candidate reason)
      (sameTotal s p checks table coverer r) := by
  have hsteady : ∀ entry : PatternEntry, ∀ c, Steady p
      (if s.isInductionGuard p c = true then pure true
        else if r.sameSplit entry.left entry.right = true then s.subsumed p c coverer .coverage
        else pure false) :=
    fun entry c => (steady_pure _).ite ((s.steady_subsumed p c coverer .coverage).ite (steady_pure _))
  refine (settles_each fun entry _ =>
    settles_considerEntry p checks coverer r.total entry (hsteady entry)).congr fun id reason => ?_
  have htest : ∀ (entry : PatternEntry) (c : Check), (if s.isInductionGuard p c = true then pure true
        else if r.sameSplit entry.left entry.right = true then s.subsumed p c coverer .coverage
        else pure false : Compare Bool).verdict = true ↔ ProbeCovers s p table r entry c coverer := by
    intro entry c
    rw [ProbeCovers, if_pos husable]
    split
    · next hguard => exact ⟨fun _ => .inl hguard, fun _ => rfl⟩
    · next hguard =>
      split
      · next hsplit => simp [hguard, hsplit]
      · next hsplit =>
        constructor
        · intro h
          cases h
        · rintro (h | ⟨h, _⟩)
          · exact absurd h hguard
          · exact absurd h hsplit
  simp only [htest]
  constructor
  · rintro ⟨entry, hentry, candidate, hid, hget, hcovers, hreason⟩
    exact ⟨candidate, hid, r.total, entry, .total husable hentry, hget, hcovers, hreason⟩
  · rintro ⟨candidate, hid, count, entry, hprobe, hget, hcovers, hreason⟩
    cases hprobe with
    | total _ hentry => exact ⟨entry, hentry, candidate, hid, hget, hcovers, hreason⟩
    | left h => simp [husable] at h
    | right h => simp [husable] at h

private theorem settles_oneSided (coverer : Check) (count : Count) :
    Settles p (fun id reason => ∃ candidate, candidate.id = id ∧
        ∃ entry ∈ PatternTable.bucket table count, entry.isOneSided = true ∧
        checks.sanitizer[entry.ordinal]? = some candidate ∧
        (s.subsumed p candidate coverer .coverage).verdict = true ∧
        reason = ⟨count, .user, coverer.id⟩)
      (oneSided s p checks table coverer count) := by
  refine (settles_each fun entry _ => settles_considerEntry p checks coverer count entry
    fun c => s.steady_subsumed p c coverer .coverage).congr fun id reason => ?_
  simp only [List.mem_filter]
  constructor
  · rintro ⟨entry, ⟨hentry, hside⟩, candidate, hid, hget, hsub, hreason⟩
    exact ⟨candidate, hid, entry, hentry, hside, hget, hsub, hreason⟩
  · rintro ⟨candidate, hid, entry, hentry, hside, hget, hsub, hreason⟩
    exact ⟨entry, ⟨hentry, hside⟩, candidate, hid, hget, hsub, hreason⟩

/-- A user check offers itself for what its record finds and it covers. -/
theorem settles_userStep (coverer : Check) (r : Record) :
    Settles p (fun id reason => ∃ candidate, candidate.id = id ∧
        RecordOffer s p checks table coverer r candidate reason)
      (userStep s p checks table coverer r) := by
  unfold userStep
  by_cases htotal : usable table r.total = true
  · rw [if_pos htotal]
    exact settles_sameTotal s p checks table coverer htotal
  · have hcovers : ∀ entry candidate, ProbeCovers s p table r entry candidate coverer ↔
        (s.subsumed p candidate coverer .coverage).verdict = true := by
      intro entry candidate
      rw [ProbeCovers, if_neg htotal]
    rw [Bool.not_eq_true] at htotal
    simp only [RecordOffer, hcovers, htotal, Bool.false_eq_true, if_false]
    by_cases hleft : usable table r.left = true
    · rw [if_pos hleft]
      refine (settles_oneSided s p checks table coverer r.left).congr fun id reason => ?_
      constructor
      · rintro ⟨candidate, hid, entry, hentry, hside, hrest⟩
        exact ⟨candidate, hid, r.left, entry, .left htotal hleft hentry hside, hrest⟩
      · rintro ⟨candidate, hid, count, entry, hprobe, hrest⟩
        cases hprobe with
        | total h => simp [htotal] at h
        | left _ _ hentry hside => exact ⟨candidate, hid, entry, hentry, hside, hrest⟩
        | right _ h => simp [hleft] at h
    · rw [if_neg hleft]
      rw [Bool.not_eq_true] at hleft
      by_cases hright : usable table r.right = true
      · rw [if_pos hright]
        refine (settles_oneSided s p checks table coverer r.right).congr fun id reason => ?_
        constructor
        · rintro ⟨candidate, hid, entry, hentry, hside, hrest⟩
          exact ⟨candidate, hid, r.right, entry, .right htotal hleft hright hentry hside, hrest⟩
        · rintro ⟨candidate, hid, count, entry, hprobe, hrest⟩
          cases hprobe with
          | total h => simp [htotal] at h
          | left _ h => simp [hleft] at h
          | right _ _ _ hentry hside => exact ⟨candidate, hid, entry, hentry, hside, hrest⟩
      · rw [if_neg hright]
        refine settles_pure.congr fun id reason => ?_
        constructor
        · exact False.elim
        · rintro ⟨candidate, hid, count, entry, hprobe, hrest⟩
          cases hprobe with
          | total h => simp [htotal] at h
          | left _ h => simp [hleft] at h
          | right _ _ h => exact hright h

/-- The first phase enters the checks that are covered by user checks, and no others. -/
theorem settles_user (records : List Record) :
    Settles p (fun id reason => ∃ candidate, candidate.id = id ∧
        UserOffer s p checks table records candidate reason)
      (user s p checks table records) := by
  refine (settles_each fun pair _ =>
    settles_userStep s p checks table pair.1 pair.2).congr fun id reason => ?_
  constructor
  · rintro ⟨⟨coverer, r⟩, hmem, candidate, hid, hrest⟩
    exact ⟨candidate, hid, coverer, r, hmem, hrest⟩
  · rintro ⟨candidate, hid, coverer, r, hmem, hrest⟩
    exact ⟨(coverer, r), hmem, candidate, hid, hrest⟩

private theorem settles_coverageStep (ordinal : Nat) (candidate : Check) (r : Record) :
    Settles p (fun id reason => candidate.id = id ∧ r.total ≠ 0 ∧ ∃ coverer,
        (earlierChecks checks table ordinal candidate r).find?
          (fun c => (s.subsumed p candidate c .coverage).verdict) = some coverer ∧
        reason = ⟨r.total, .coverage, coverer.id⟩)
      (coverageStep s p checks table ordinal candidate r) := by
  refine ⟨fun l => ?_, fun l session hs id reason hoffer => ?_⟩
  · refine Grows.ite (fun _ => grows_pure) fun hskip => ?_
    rw [not_or, Bool.not_eq_true, Ledger.register_contains,
      Ledger.contains_eq_false_iff] at hskip
    exact grows_coverByFirst hskip.2 fun c hfirst => ⟨rfl, hskip.1, c, hfirst, rfl⟩
  · obtain ⟨rfl, htotal, coverer, hfirst, _⟩ := hoffer
    unfold coverageStep
    split
    · next hskip => exact hskip.resolve_left htotal
    · next hskip =>
      rw [not_or, Bool.not_eq_true, Ledger.register_contains,
      Ledger.contains_eq_false_iff] at hskip
      have hsub := List.find?_some hfirst
      exact contains_coverByFirst hs hskip.2 (List.mem_of_find?_eq_some hfirst) hsub

/-- The second phase enters the checks that are covered by earlier ones, each with the first of
these, and no others. -/
theorem settles_coverage_earliest (records : List Record) :
    Settles p (fun id reason => ∃ candidate, candidate.id = id ∧
        EarliestOffer s p checks table records candidate reason)
      (coverage s p checks table records) := by
  refine (settles_each fun item _ =>
    settles_coverageStep s p checks table item.2 item.1.1 item.1.2).congr fun id reason => ?_
  have hzip : ∀ candidate r ordinal,
      ((candidate, r), ordinal) ∈ (checks.sanitizer.zip records).zipIdx ↔
        checks.sanitizer[ordinal]? = some candidate ∧ records[ordinal]? = some r := by
    intro candidate r ordinal
    rw [List.mem_zipIdx_iff_getElem?, List.getElem?_zip_eq_some]
  constructor
  · rintro ⟨⟨⟨candidate, r⟩, ordinal⟩, hmem, hid, hrest⟩
    obtain ⟨hc, hr⟩ := (hzip candidate r ordinal).mp hmem
    exact ⟨candidate, hid, ordinal, r, hc, hr, hrest⟩
  · rintro ⟨candidate, hid, ordinal, r, hc, hr, hrest⟩
    exact ⟨((candidate, r), ordinal), (hzip candidate r ordinal).mpr ⟨hc, hr⟩, hid, hrest⟩

/-- The second phase enters the checks that are covered by earlier ones, and no others. -/
theorem settles_coverage (records : List Record) :
    Settles p (fun id reason => ∃ candidate, candidate.id = id ∧
        EarlierOffer s p checks table records candidate reason)
      (coverage s p checks table records) := by
  refine (settles_coverage_earliest s p checks table records).weaken ?_ ?_
  · rintro id reason ⟨candidate, hid, ordinal, r, hc, hr, htotal, coverer, hfirst, hreason⟩
    obtain ⟨entry, hentry, hget⟩ := List.mem_filterMap.mp (List.mem_of_find?_eq_some hfirst)
    obtain ⟨hbucket, hmatch⟩ := List.mem_filter.mp hentry
    have hsub := List.find?_some hfirst
    exact ⟨candidate, hid, ordinal, r, hc, hr, htotal, entry, coverer, hbucket, hmatch, hget, hsub,
      hreason⟩
  · rintro id reason ⟨candidate, hid, ordinal, r, hc, hr, htotal, entry, coverer, hbucket, hmatch,
      hget, hsub, _⟩
    have hmem : coverer ∈ earlierChecks checks table ordinal candidate r :=
      List.mem_filterMap.mpr ⟨entry, List.mem_filter.mpr ⟨hbucket, hmatch⟩, hget⟩
    have hfound : ((earlierChecks checks table ordinal candidate r).find?
        fun c => (s.subsumed p candidate c .coverage).verdict).isSome = true :=
      List.find?_isSome.mpr ⟨coverer, hmem, hsub⟩
    obtain ⟨first, hfirst⟩ := Option.isSome_iff_exists.mp hfound
    exact ⟨_, candidate, hid, ordinal, r, hc, hr, htotal, first, hfirst, rfl⟩

end FirstTwo

end Phases

end GuardElision
