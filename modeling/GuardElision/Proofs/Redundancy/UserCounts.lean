import GuardElision.Program.Builder
import GuardElision.Proofs.Redundancy.Added
import GuardElision.Proofs.Run.Inventory
import GuardElision.Proofs.Trace.Totals

/-!
# What the counts of user checks cover

The first phase goes through the user checks and, for each of them, through the entries of one
bucket, while the ledger fills up. When the table was made from the trace of the sanitizer checks,
all this amounts to a relation between two checks and their records (`Phases.CoversByCounts`), in
which neither ledger nor session occurs: the phase adds the checks that some user check covers,
each with the first user check that does.
-/

namespace GuardElision.Phases

open Compare

/-- The record of a user check says that it covers a sanitizer check with a record of its own. -/
inductive CoversByCounts (s : Strategy) (p : Program) (table : PatternTable) (u : Check)
    (r : Record) (c : Check) (own : Record) : Prop where
  /-- Both ran equally often, and the sanitizer check guards an induction variable, or it went the
  same ways and the user check makes it superfluous. -/
  | total : usable table r.total = true → own.total = r.total →
      (s.isInductionGuard p c = true ∨ r.sameSplit own.left own.right = true ∧
        (s.subsumed p c u .coverage).verdict = true) → CoversByCounts s p table u r c own
  /-- The sanitizer check always went one way, as often as the user check went left. -/
  | left : usable table r.total = false → usable table r.left = true → own.total = r.left →
      (own.left = 0 ∨ own.right = 0) → (s.subsumed p c u .coverage).verdict = true →
      CoversByCounts s p table u r c own
  /-- The sanitizer check always went one way, as often as the user check went right. -/
  | right : usable table r.total = false → usable table r.left = false →
      usable table r.right = true → own.total = r.right → (own.left = 0 ∨ own.right = 0) →
      (s.subsumed p c u .coverage).verdict = true → CoversByCounts s p table u r c own

/-- The entry of a sanitizer check that some user check covers by its counts: the first of these
user checks stands for it, and its runs are counted. -/
def CountedEntry (s : Strategy) (p : Program) (checks : Inventory) (e : SanitizerEvidence)
    (records : List Record) (id : CheckId) (reason : Reason) : Prop :=
  ∃ (i : Nat) (c : Check) (own : Record), checks.sanitizer[i]? = some c ∧
    e.records[i]? = some own ∧ c.id = id ∧ 0 < own.total ∧
    ∃ (k : Nat) (u : Check) (r : Record), checks.user[k]? = some u ∧ records[k]? = some r ∧
      CoversByCounts s p e.table u r c own ∧
      (∀ (j : Nat) (v : Check) (r' : Record), j < k → checks.user[j]? = some v →
        records[j]? = some r' → ¬ CoversByCounts s p e.table v r' c own) ∧
      reason = ⟨own.total, .user, u.id⟩

section

variable {s : Strategy} {p : Program} {checks : Inventory} {table : PatternTable}

theorem ne_zero_of_usable {count : Count} (h : usable table count = true) : count ≠ 0 := by
  simp only [usable, Bool.and_eq_true, bne_iff_ne] at h
  exact h.1

/-- A check that is covered by counts ran at least once. -/
theorem CoversByCounts.total_pos {u c : Check} {r own : Record}
    (h : CoversByCounts s p table u r c own) : 0 < own.total := by
  apply UInt64.pos_iff_ne_zero.mpr
  cases h with
  | total husable htotal => exact htotal ▸ ne_zero_of_usable husable
  | left _ husable htotal => exact htotal ▸ ne_zero_of_usable husable
  | right _ _ husable htotal => exact htotal ▸ ne_zero_of_usable husable

theorem isOneSided_entryOf_iff (i : Nat) (c : Check) (own : Record) :
    (SanitizerEvidence.entryOf i c own).isOneSided = true ↔ own.left = 0 ∨ own.right = 0 := by
  simp [PatternEntry.isOneSided, SanitizerEvidence.entryOf]

/-- An entry of a table made from records is that of the check at its position, filed under the
total of its record. -/
private theorem record_of_mem_bucket {found : List Record} {count : Count} {entry : PatternEntry}
    {c : Check} (hentry : entry ∈ PatternTable.bucket
      (SanitizerEvidence.ofRecords checks.sanitizer found).table count)
    (hget : checks.sanitizer[entry.ordinal]? = some c) :
    ∃ own, entry = SanitizerEvidence.entryOf entry.ordinal c own ∧
      found[entry.ordinal]? = some own ∧ own.total = count := by
  obtain ⟨i, c', own, hc', hown, htotal, rfl⟩ :=
    SanitizerEvidence.mem_bucket_ofRecords_iff.mp hentry
  obtain rfl : c' = c := Option.some.inj (hc'.symm.trans hget)
  exact ⟨own, rfl, hown, htotal⟩

/-- What a user check finds in a table made from the records of the checks, it covers by counts. -/
private theorem coversByCounts_of_recordOffer {found : List Record} {u c : Check} {r : Record}
    {reason : Reason} (h : RecordOffer s p checks
      (SanitizerEvidence.ofRecords checks.sanitizer found).table u r c reason) :
    ∃ (i : Nat) (own : Record), checks.sanitizer[i]? = some c ∧ found[i]? = some own ∧
      CoversByCounts s p (SanitizerEvidence.ofRecords checks.sanitizer found).table u r c own ∧
      reason = ⟨own.total, .user, u.id⟩ := by
  obtain ⟨count, entry, hprobe, hget, hcovers, rfl⟩ := h
  cases hprobe with
  | total husable hentry =>
    obtain ⟨own, hentry, hown, htotal⟩ := record_of_mem_bucket hentry hget
    rw [ProbeCovers, if_pos husable, hentry] at hcovers
    exact ⟨entry.ordinal, own, hget, hown, .total husable htotal hcovers, by rw [htotal]⟩
  | left hnot husable hentry hside =>
    obtain ⟨own, hentry, hown, htotal⟩ := record_of_mem_bucket hentry hget
    rw [ProbeCovers, if_neg (by simp [hnot])] at hcovers
    rw [hentry, isOneSided_entryOf_iff] at hside
    exact ⟨entry.ordinal, own, hget, hown, .left hnot husable htotal hside hcovers, by rw [htotal]⟩
  | right hnot hleft husable hentry hside =>
    obtain ⟨own, hentry, hown, htotal⟩ := record_of_mem_bucket hentry hget
    rw [ProbeCovers, if_neg (by simp [hnot])] at hcovers
    rw [hentry, isOneSided_entryOf_iff] at hside
    exact ⟨entry.ordinal, own, hget, hown, .right hnot hleft husable htotal hside hcovers,
      by rw [htotal]⟩

/-- What a user check covers by counts, it finds in a table made from the records of the checks. -/
private theorem CoversByCounts.recordOffer {found : List Record} {u c : Check} {r own : Record}
    {i : Nat} (h : CoversByCounts s p (SanitizerEvidence.ofRecords checks.sanitizer found).table u r
      c own) (hget : checks.sanitizer[i]? = some c) (hown : found[i]? = some own) :
    RecordOffer s p checks (SanitizerEvidence.ofRecords checks.sanitizer found).table u r c
      ⟨own.total, .user, u.id⟩ := by
  have hentry : SanitizerEvidence.entryOf i c own ∈ PatternTable.bucket
      (SanitizerEvidence.ofRecords checks.sanitizer found).table own.total :=
    SanitizerEvidence.mem_bucket_ofRecords_iff.mpr ⟨i, c, own, hget, hown, rfl, rfl⟩
  refine ⟨own.total, SanitizerEvidence.entryOf i c own, ?_, hget, ?_, rfl⟩
  · cases h with
    | total husable htotal =>
      rw [htotal] at hentry ⊢
      exact .total husable hentry
    | left hnot husable htotal hside =>
      rw [htotal] at hentry ⊢
      exact .left hnot husable hentry ((isOneSided_entryOf_iff i c own).mpr hside)
    | right hnot hleft husable htotal hside =>
      rw [htotal] at hentry ⊢
      exact .right hnot hleft husable hentry ((isOneSided_entryOf_iff i c own).mpr hside)
  · cases h with
    | total husable _ hcovered =>
      rw [ProbeCovers, if_pos husable]
      exact hcovered
    | left hnot _ _ _ hsub =>
      rw [ProbeCovers, if_neg (by simp [hnot])]
      exact hsub
    | right hnot _ _ _ _ hsub =>
      rw [ProbeCovers, if_neg (by simp [hnot])]
      exact hsub

/-- In a table made from the records of the checks, a user check finds the entries of the checks
that it covers by counts. -/
theorem recordOffer_ofRecords_iff (found : List Record) (u : Check) (r : Record) (c : Check)
    (reason : Reason) :
    RecordOffer s p checks (SanitizerEvidence.ofRecords checks.sanitizer found).table u r c reason ↔
      ∃ (i : Nat) (own : Record), checks.sanitizer[i]? = some c ∧ found[i]? = some own ∧
        CoversByCounts s p (SanitizerEvidence.ofRecords checks.sanitizer found).table u r c own ∧
        reason = ⟨own.total, .user, u.id⟩ := by
  refine ⟨coversByCounts_of_recordOffer, ?_⟩
  rintro ⟨i, own, hget, hown, hcovers, rfl⟩
  exact hcovers.recordOffer hget hown

end

section

variable (s : Strategy) (p : Program) {checks : Inventory} (found : List Record)

/-- Where numbers tell the checks apart, the counts of a user check give one reason for a check. -/
private theorem recordOffer_unique (hdistinct : checks.Distinct) {u c c' : Check} {r : Record}
    {reason reason' : Reason} (hid : c.id = c'.id)
    (h : RecordOffer s p checks (SanitizerEvidence.ofRecords checks.sanitizer found).table u r c
      reason)
    (h' : RecordOffer s p checks (SanitizerEvidence.ofRecords checks.sanitizer found).table u r c'
      reason') : reason = reason' := by
  obtain ⟨i, own, hc, hown, _, rfl⟩ := (recordOffer_ofRecords_iff found u r c reason).mp h
  obtain ⟨j, own', hc', hown', _, rfl⟩ := (recordOffer_ofRecords_iff found u r c' reason').mp h'
  obtain rfl := hdistinct.position_eq hc hc' hid
  obtain rfl := Option.some.inj (hown.symm.trans hown')
  rfl

/-- The first user check with an offer for a check is the first one that covers it by counts. -/
private theorem firstOffer_iff_countedEntry (hdistinct : checks.Distinct) (records : List Record)
    (id : CheckId) (reason : Reason) :
    FirstOffer (checks.user.zip records) (fun pair id reason => ∃ candidate, candidate.id = id ∧
        RecordOffer s p checks (SanitizerEvidence.ofRecords checks.sanitizer found).table pair.1
          pair.2 candidate reason) id reason ↔
      CountedEntry s p checks (.ofRecords checks.sanitizer found) records id reason := by
  constructor
  · rintro ⟨k, ⟨u, r⟩, hpair, ⟨c, hid, hoffer⟩, hbefore⟩
    obtain ⟨hu, hr⟩ := List.getElem?_zip_eq_some.mp hpair
    obtain ⟨i, own, hc, hown, hcovers, hreason⟩ :=
      (recordOffer_ofRecords_iff found u r c reason).mp hoffer
    refine ⟨i, c, own, hc, hown, hid, hcovers.total_pos, k, u, r, hu, hr, hcovers, ?_, hreason⟩
    intro j v r' hj hv hr' hcovers'
    have hoffer' := (recordOffer_ofRecords_iff found v r' c _).mpr
      ⟨i, own, hc, hown, hcovers', rfl⟩
    exact hbefore j (v, r') hj (List.getElem?_zip_eq_some.mpr ⟨hv, hr'⟩) _ ⟨c, hid, hoffer'⟩
  · rintro ⟨i, c, own, hc, hown, hid, _, k, u, r, hu, hr, hcovers, hbefore, hreason⟩
    refine ⟨k, (u, r), List.getElem?_zip_eq_some.mpr ⟨hu, hr⟩, ⟨c, hid, ?_⟩, ?_⟩
    · exact (recordOffer_ofRecords_iff found u r c reason).mpr ⟨i, own, hc, hown, hcovers, hreason⟩
    · rintro j ⟨v, r'⟩ hj hpair why ⟨c', hid', hoffer⟩
      obtain ⟨hv, hr'⟩ := List.getElem?_zip_eq_some.mp hpair
      obtain ⟨i', own', hc', hown', hcovers', _⟩ :=
        (recordOffer_ofRecords_iff found v r' c' why).mp hoffer
      -- no other check has the number, so the earlier offer is for the same record
      obtain rfl := hdistinct.position_eq hc hc' (hid.trans hid'.symm)
      obtain rfl := Option.some.inj (hc.symm.trans hc')
      obtain rfl := Option.some.inj (hown.symm.trans hown')
      exact hbefore j v r' hj hv hr' hcovers'

end

/-- The first phase adds exactly the sanitizer checks that some user check covers by counts, each
with the first user check that does and with the number of its runs, which is not zero. It leaves
what is in the ledger and tells how many checks it added. -/
theorem user_adds {s : Strategy} {p : Program} {checks : Inventory} (hdistinct : checks.Distinct)
    {bytes : List UInt8} {e : SanitizerEvidence}
    (hread : SanitizerEvidence.ofTrace checks.sanitizer bytes = .ok e) (records : List Record)
    (l : Ledger) {session : Session} (hs : session.Faithful p) :
    Adds (CountedEntry s p checks e records) l
      (counted (user s p checks e.table records) l session).1 := by
  obtain ⟨found, _, rfl⟩ := SanitizerEvidence.ofTrace_eq_ok_iff.mp hread
  have hfirst := firstOffer_iff_countedEntry s p found hdistinct records
  have hsettles := settles_each_first
    fun (pair : Check × Record) (_ : pair ∈ checks.user.zip records) =>
      settles_userStep s p checks (SanitizerEvidence.ofRecords checks.sanitizer found).table pair.1
        pair.2
  refine (hsettles.congr hfirst).adds (counts_user s p checks _ records)
    (fun id reason reason' h h' => ?_) l hs
  refine FirstOffer.unique ?_ ((hfirst id reason).mpr h) ((hfirst id reason').mpr h')
  rintro pair _ why why' ⟨c, hid, hoffer⟩ ⟨c', hid', hoffer'⟩
  exact recordOffer_unique s p found hdistinct (hid.trans hid'.symm) hoffer hoffer'

open Build in
/-- Six tests in a row: five of an index, and one of a variable that counts the rounds of a loop. -/
def indexTests : Program :=
  let steps : Build Unit := do
    let main ← procedure "main"
    let first ← block main
    let second ← block main
    let third ← block main
    let fourth ← block main
    let fifth ← block main
    let sixth ← block main
    let done ← block main
    let fail ← block main
    let index ← external "index"
    let round ← operation first .controlMerge [] "indvars.round"
    let _ ← branch first (.external index) second fail
    let _ ← branch second (.external index) third fail
    let _ ← branch third (.external index) fourth fail
    let _ ← branch fourth (.external index) fifth fail
    let _ ← branch fifth (.node round) sixth fail
    let _ ← branch sixth (.external index) done fail
  (steps.run.run { name := "indexTests" }).2

/-- The first two tests are the user's, the others are sanitizer checks. -/
def indexChecks : Inventory where
  sanitizer := [⟨⟨1⟩, ⟨3⟩, .sanitizer, .generic⟩, ⟨⟨2⟩, ⟨4⟩, .sanitizer, .generic⟩,
    ⟨⟨3⟩, ⟨5⟩, .sanitizer, .generic⟩, ⟨⟨4⟩, ⟨6⟩, .sanitizer, .generic⟩]
  user := [⟨⟨100⟩, ⟨1⟩, .user, .generic⟩, ⟨⟨101⟩, ⟨2⟩, .user, .generic⟩]
  cones := [[⟨3⟩], [⟨4⟩], [⟨5⟩], [⟨6⟩]]

/-- The coverage of the sanitizer checks: the second one always passed. -/
def indexEvidence : SanitizerEvidence :=
  .ofRecords indexChecks.sanitizer [⟨⟨1⟩, 4, 6⟩, ⟨⟨2⟩, 7, 0⟩, ⟨⟨3⟩, 1, 9⟩, ⟨⟨4⟩, 3, 4⟩]

/-- The first user check covers by one of its sides, the second one by its total, the test of the
loop's variable among others; the last sanitizer check went both ways and is left. -/
theorem indexTests_user_adds :
    indexChecks.Distinct ∧
    SanitizerEvidence.ofTrace indexChecks.sanitizer (Trace.encode indexEvidence.records) =
      .ok indexEvidence ∧
    Adds (CountedEntry ⟨.l2, "indvars", 32⟩ indexTests indexChecks indexEvidence
        [⟨⟨100⟩, 7, 5⟩, ⟨⟨101⟩, 6, 4⟩]) .empty
      (counted (user ⟨.l2, "indvars", 32⟩ indexTests indexChecks indexEvidence.table
        [⟨⟨100⟩, 7, 5⟩, ⟨⟨101⟩, 6, 4⟩]) .empty {}).1 ∧
    (counted (user ⟨.l2, "indvars", 32⟩ indexTests indexChecks indexEvidence.table
        [⟨⟨100⟩, 7, 5⟩, ⟨⟨101⟩, 6, 4⟩]) .empty {}).1.2.entries =
      [(⟨1⟩, ⟨10, .user, ⟨101⟩⟩), (⟨2⟩, ⟨7, .user, ⟨100⟩⟩), (⟨3⟩, ⟨10, .user, ⟨101⟩⟩)] := by
  have hdistinct : indexChecks.Distinct := by decide
  have hread : SanitizerEvidence.ofTrace indexChecks.sanitizer
      (Trace.encode indexEvidence.records) = .ok indexEvidence :=
    SanitizerEvidence.ofTrace_eq_ok_iff.mpr ⟨indexEvidence.records, by decide +kernel, rfl⟩
  exact ⟨hdistinct, hread,
    user_adds hdistinct hread _ .empty (Session.faithful_fresh indexTests), by decide +kernel⟩

end GuardElision.Phases
