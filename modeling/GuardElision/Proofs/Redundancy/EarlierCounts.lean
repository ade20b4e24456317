import GuardElision.Proofs.Redundancy.UserCounts
import GuardElision.Run.Analysis

/-!
# What the counts of earlier checks cover

The second phase goes through the sanitizer checks and compares each of them with the checks in its
bucket that come before it, by one count alone, until one of them covers it. When the trace that
is read is the one the table was made from, and no record runs over a word, the one count decides
the other, because the totals are equal, and the bucket keeps the order of the checks. So the phase
adds the checks that an earlier one covers with the same two counts, each with the first of these,
whether or not that one is in the ledger itself.
-/

namespace GuardElision

namespace Record

/-- Records that do not run over a word and have equal totals went the same ways, in either order,
as soon as one way of the one was gone as often as the left way of the other. -/
theorem sameSplit_iff_of_fits {r r' : Record} (hr : r.left.toNat + r.right.toNat ≤ Count.limit)
    (hr' : r'.left.toNat + r'.right.toNat ≤ Count.limit) : r'.sameSplit r.left r.right = true ↔
      r'.total = r.total ∧ (r.left = r'.left ∨ r.right = r'.left) := by
  have htotal : ∀ x : Record, x.left.toNat + x.right.toNat ≤ Count.limit →
      x.total.toNat = x.left.toNat + x.right.toNat := by
    intro x hx
    rw [total, Count.toNat_add, Nat.min_eq_left hx]
  simp only [sameSplit, Bool.or_eq_true, Bool.and_eq_true, beq_iff_eq]
  constructor
  · rintro (⟨hleft, hright⟩ | ⟨hleft, hright⟩)
    · exact ⟨by rw [total, total, hleft, hright], .inl hleft.symm⟩
    · exact ⟨total_comm hleft hright, .inr hleft.symm⟩
  · rintro ⟨hsame, hone⟩
    have hsum := congrArg UInt64.toNat hsame
    rw [htotal r hr, htotal r' hr'] at hsum
    rcases hone with hleft | hright
    · rw [hleft] at hsum
      exact .inl ⟨hleft.symm, UInt64.toNat_inj.mp (by omega)⟩
    · rw [hright] at hsum
      exact .inr ⟨hright.symm, UInt64.toNat_inj.mp (by omega)⟩

end Record

namespace Phases

open Compare

/-- The sanitizer check at one position is covered by the one at an earlier position, which went the
same ways, in either order, equally often. -/
def CoveredByEarlier (s : Strategy) (p : Program) (checks : Inventory) (records : List Record)
    (i j : Nat) : Prop :=
  j < i ∧ ∃ (c earlier : Check) (own r : Record),
    checks.sanitizer[i]? = some c ∧ records[i]? = some own ∧
    checks.sanitizer[j]? = some earlier ∧ records[j]? = some r ∧
    r.sameSplit own.left own.right = true ∧ (s.subsumed p c earlier .coverage).verdict = true

/-- The entry of a sanitizer check that ran and that some earlier one covers: the first of these
stands for it, and its runs are counted. -/
def EarlierEntry (s : Strategy) (p : Program) (checks : Inventory) (records : List Record)
    (id : CheckId) (reason : Reason) : Prop :=
  ∃ (i : Nat) (c : Check) (own : Record), checks.sanitizer[i]? = some c ∧
    records[i]? = some own ∧ c.id = id ∧ 0 < own.total ∧
    ∃ (j : Nat) (earlier : Check), checks.sanitizer[j]? = some earlier ∧
      CoveredByEarlier s p checks records i j ∧
      (∀ k, k < j → ¬ CoveredByEarlier s p checks records i k) ∧
      reason = ⟨own.total, .coverage, earlier.id⟩

/-- The first element with a property, together with its position. -/
private theorem find?_zipIdx_eq_some_iff {α : Type} {xs : List α} {test : α × Nat → Bool} {x : α}
    {j : Nat} : xs.zipIdx.find? test = some (x, j) ↔
      xs[j]? = some x ∧ test (x, j) = true ∧
        ∀ k y, k < j → xs[k]? = some y → test (y, k) = false := by
  rw [List.find?_eq_some_iff_getElem]
  simp only [List.getElem_zipIdx, List.length_zipIdx, Nat.zero_add, Bool.not_eq_true']
  constructor
  · rintro ⟨htest, i, hi, heq, hbefore⟩
    obtain ⟨rfl, rfl⟩ := Prod.mk.inj heq
    refine ⟨List.getElem?_eq_getElem hi, htest, fun k y hk hy => ?_⟩
    obtain ⟨_, rfl⟩ := List.getElem?_eq_some_iff.mp hy
    exact hbefore k hk
  · rintro ⟨hx, htest, hbefore⟩
    obtain ⟨hj, rfl⟩ := List.getElem?_eq_some_iff.mp hx
    exact ⟨htest, j, hj, rfl, fun k hk => hbefore k _ hk (List.getElem?_eq_getElem (by omega))⟩

section

variable (s : Strategy) (p : Program) {checks : Inventory} {records : List Record}

/-- In a table made from the records, the earlier checks with matching counts are listed in their
order. -/
private theorem earlierChecks_ofRecords (i : Nat) (c : Check) (own : Record) :
    earlierChecks checks (SanitizerEvidence.ofRecords checks.sanitizer records).table i c own =
      ((checks.sanitizer.zip records).zipIdx.filter fun x => x.1.2.total == own.total &&
        earlierMatch i c own (SanitizerEvidence.entryOf x.2 x.1.1 x.1.2)).map fun x => x.1.1 := by
  rw [earlierChecks, SanitizerEvidence.bucket_ofRecords, List.filter_map, List.filter_filter,
    List.filterMap_map, ← List.filterMap_eq_map]
  have htests : ∀ x : (Check × Record) × Nat,
      ((earlierMatch i c own ∘ fun x => SanitizerEvidence.entryOf x.2 x.1.1 x.1.2) x &&
        x.1.2.total == own.total) = (x.1.2.total == own.total &&
          earlierMatch i c own (SanitizerEvidence.entryOf x.2 x.1.1 x.1.2)) :=
    fun _ => Bool.and_comm _ _
  simp only [htests]
  refine List.filterMap_congr fun x hx => ?_
  have hget := List.mem_zipIdx_iff_getElem?.mp (List.mem_of_mem_filter hx)
  exact (List.getElem?_zip_eq_some.mp hget).1

variable (hdistinct : checks.Distinct)
  (hids : records.map Record.id = checks.sanitizer.map Check.id)
  (hfits : ∀ r ∈ records, r.left.toNat + r.right.toNat ≤ Count.limit)

include hdistinct hids hfits

/-- At an earlier position the tests of the phase come to the two counts being the same. -/
private theorem earlierMatch_iff {i j : Nat} {c earlier : Check} {own r : Record}
    (hc : checks.sanitizer[i]? = some c) (hown : records[i]? = some own)
    (he : checks.sanitizer[j]? = some earlier) (hr : records[j]? = some r) :
    (r.total == own.total &&
        earlierMatch i c own (SanitizerEvidence.entryOf j earlier r)) = true ↔
      j < i ∧ r.sameSplit own.left own.right = true := by
  have hsplit := Record.sameSplit_iff_of_fits (hfits own (List.mem_of_getElem? hown))
    (hfits r (List.mem_of_getElem? hr))
  have hid : r.id = earlier.id := by
    have hget : (records.map Record.id)[j]? = some earlier.id := by simp [hids, he]
    simpa [hr] using hget
  rw [hsplit]
  simp only [earlierMatch, SanitizerEvidence.entryOf, hid, Bool.and_eq_true, Bool.or_eq_true,
    beq_iff_eq, bne_iff_ne, decide_eq_true_eq]
  constructor
  · rintro ⟨htotal, ⟨hlt, _⟩, hone⟩
    exact ⟨hlt, htotal, hone⟩
  · rintro ⟨hlt, htotal, hone⟩
    refine ⟨htotal, ⟨hlt, fun hsame => ?_⟩, hone⟩
    have := hdistinct.position_eq he hc hsame
    omega

/-- The check that the phase settles on is the first one that covers by the same counts. -/
private theorem find?_earlierChecks_iff {i : Nat} {c : Check} {own : Record}
    (hc : checks.sanitizer[i]? = some c) (hown : records[i]? = some own) (earlier : Check) :
    (earlierChecks checks (SanitizerEvidence.ofRecords checks.sanitizer records).table i c
        own).find? (fun e => (s.subsumed p c e .coverage).verdict) = some earlier ↔
      ∃ j, checks.sanitizer[j]? = some earlier ∧ CoveredByEarlier s p checks records i j ∧
        ∀ k, k < j → ¬ CoveredByEarlier s p checks records i k := by
  have htest : ∀ {j : Nat} {e : Check} {r : Record}, checks.sanitizer[j]? = some e →
      records[j]? = some r →
      ((r.total == own.total && earlierMatch i c own (SanitizerEvidence.entryOf j e r)) = true ∧
        (s.subsumed p c e .coverage).verdict = true ↔ CoveredByEarlier s p checks records i j) := by
    intro j e r he hr
    rw [earlierMatch_iff hdistinct hids hfits hc hown he hr]
    constructor
    · rintro ⟨⟨hlt, hsplit⟩, hsub⟩
      exact ⟨hlt, c, e, own, r, hc, hown, he, hr, hsplit, hsub⟩
    · rintro ⟨hlt, c', e', own', r', hc', hown', he', hr', hsplit, hsub⟩
      obtain rfl := Option.some.inj (hc.symm.trans hc')
      obtain rfl := Option.some.inj (hown.symm.trans hown')
      obtain rfl := Option.some.inj (he.symm.trans he')
      obtain rfl := Option.some.inj (hr.symm.trans hr')
      exact ⟨⟨hlt, hsplit⟩, hsub⟩
  rw [earlierChecks_ofRecords, List.find?_map, List.find?_filter, Option.map_eq_some_iff]
  constructor
  · rintro ⟨⟨⟨e, r⟩, j⟩, hfind, rfl⟩
    obtain ⟨hpair, hpass, hbefore⟩ := find?_zipIdx_eq_some_iff.mp hfind
    obtain ⟨he, hr⟩ := List.getElem?_zip_eq_some.mp hpair
    refine ⟨j, he, (htest he hr).mp (of_decide_eq_true hpass), fun k hk hcovered => ?_⟩
    have ⟨_, _, e', _, r', _, _, he', hr', _⟩ := hcovered
    have hfails := hbefore k (e', r') hk (List.getElem?_zip_eq_some.mpr ⟨he', hr'⟩)
    exact of_decide_eq_false hfails ((htest he' hr').mpr hcovered)
  · rintro ⟨j, he, hcovered, hbefore⟩
    have ⟨_, _, _, _, r, _, _, _, hr, _⟩ := hcovered
    refine ⟨((earlier, r), j), find?_zipIdx_eq_some_iff.mpr ⟨?_, ?_, ?_⟩, rfl⟩
    · exact List.getElem?_zip_eq_some.mpr ⟨he, hr⟩
    · exact decide_eq_true ((htest he hr).mpr hcovered)
    · rintro k ⟨e', r'⟩ hk hpair
      obtain ⟨he', hr'⟩ := List.getElem?_zip_eq_some.mp hpair
      exact decide_eq_false fun hpass => hbefore k hk ((htest he' hr').mp hpass)

/-- What the second phase offers for a check is the entry that its counts give. -/
private theorem earliestOffer_iff (id : CheckId) (reason : Reason) :
    (∃ candidate, candidate.id = id ∧ EarliestOffer s p checks
        (SanitizerEvidence.ofRecords checks.sanitizer records).table records candidate reason) ↔
      EarlierEntry s p checks records id reason := by
  constructor
  · rintro ⟨c, hid, i, own, hc, hown, htotal, earlier, hfirst, hreason⟩
    obtain ⟨j, he, hcovered, hbefore⟩ :=
      (find?_earlierChecks_iff s p hdistinct hids hfits hc hown earlier).mp hfirst
    exact ⟨i, c, own, hc, hown, hid, UInt64.pos_iff_ne_zero.mpr htotal, j, earlier, he, hcovered,
      hbefore, hreason⟩
  · rintro ⟨i, c, own, hc, hown, hid, htotal, j, earlier, he, hcovered, hbefore, hreason⟩
    have hfirst := (find?_earlierChecks_iff s p hdistinct hids hfits hc hown earlier).mpr
      ⟨j, he, hcovered, hbefore⟩
    exact ⟨c, hid, i, own, hc, hown, UInt64.pos_iff_ne_zero.mp htotal, earlier, hfirst, hreason⟩

/-- The second phase adds the entries that the counts of earlier checks give. -/
theorem coverage_adds (l : Ledger) {session : Session} (hs : session.Faithful p) :
    Adds (EarlierEntry s p checks records) l (counted (coverage s p checks
      (SanitizerEvidence.ofRecords checks.sanitizer records).table records) l session).1 := by
  have hoffers := earliestOffer_iff s p hdistinct hids hfits
  refine ((settles_coverage_earliest s p checks _ records).congr hoffers).adds
    (counts_coverage s p checks _ records) ?_ l hs
  intro id reason reason' h h'
  obtain ⟨c, hid, i, own, hc, hown, _, earlier, hfirst, rfl⟩ := (hoffers id reason).mpr h
  obtain ⟨c', hid', i', own', hc', hown', _, earlier', hfirst', rfl⟩ :=
    (hoffers id reason').mpr h'
  obtain rfl := hdistinct.position_eq hc hc' (hid.trans hid'.symm)
  obtain rfl := Option.some.inj (hc.symm.trans hc')
  obtain rfl := Option.some.inj (hown.symm.trans hown')
  rw [Option.some.inj (hfirst.symm.trans hfirst')]

end

/-- On a trace that belongs to the sanitizer checks, with the table made from it and no record that
runs over a word, the second phase adds exactly the checks that ran and that an earlier one covers
with the same counts in either order, each with the first of these and with the number of its runs.
It leaves what is in the ledger and tells how many checks it added. A trace that does not belong to
the checks is refused with its cause, and the ledger stays as it is. -/
theorem coverageFrom_adds {s : Strategy} {p : Program} {checks : Inventory}
    (hdistinct : checks.Distinct) (source : TraceSource) (l : Ledger) {session : Session}
    (hs : session.Faithful p) :
    (∀ e, SanitizerEvidence.ofSource checks.sanitizer source = .ok e →
      (∀ r ∈ e.records, r.left.toNat + r.right.toNat ≤ Count.limit) →
      ∃ entered after,
        (coverageFrom s p checks e.table source l session).1 = (.ok entered, after) ∧
        Adds (EarlierEntry s p checks e.records) l (entered, after)) ∧
    ∀ cause, Trace.read checks.sanitizer source = .error cause → ∀ table,
      (coverageFrom s p checks table source l session).1 = (.error cause, l) := by
  constructor
  · intro e hingest hfits
    obtain ⟨records, hread, rfl⟩ := SanitizerEvidence.ofSource_eq_ok_iff.mp hingest
    refine ⟨_, _, ?_, coverage_adds s p hdistinct (Trace.map_id_read hread) hfits l hs⟩
    rw [coverageFrom, hread]
    rfl
  · intro cause hread table
    rw [coverageFrom, hread]
    rfl

/-- Coverage in which three of the sanitizer checks went the same ways. -/
def repeatedEvidence : SanitizerEvidence :=
  .ofRecords indexChecks.sanitizer [⟨⟨1⟩, 3, 5⟩, ⟨⟨2⟩, 5, 3⟩, ⟨⟨3⟩, 8, 0⟩, ⟨⟨4⟩, 3, 5⟩]

/-- A ledger with the first sanitizer check. -/
def firstEntered : Ledger := Ledger.mark .empty ⟨1⟩ ⟨8, .user, ⟨100⟩⟩

/-- Two of the repeated tests give way to the first one, although that one is in the ledger itself;
a trace without records is refused. -/
theorem indexTests_coverageFrom_adds :
    indexChecks.Distinct ∧
    SanitizerEvidence.ofTrace indexChecks.sanitizer (Trace.encode repeatedEvidence.records) =
      .ok repeatedEvidence ∧
    (∀ r ∈ repeatedEvidence.records, r.left.toNat + r.right.toNat ≤ Count.limit) ∧
    (∃ after, (coverageFrom ⟨.l2, "indvars", 32⟩ indexTests indexChecks repeatedEvidence.table
        (.memory (Trace.encode repeatedEvidence.records)) firstEntered {}).1 = (.ok 2, after) ∧
      Adds (EarlierEntry ⟨.l2, "indvars", 32⟩ indexTests indexChecks repeatedEvidence.records)
        firstEntered (2, after) ∧
      after.entries = [(⟨1⟩, ⟨8, .user, ⟨100⟩⟩), (⟨2⟩, ⟨8, .coverage, ⟨1⟩⟩),
        (⟨4⟩, ⟨8, .coverage, ⟨1⟩⟩)]) ∧
    Trace.decode indexChecks.sanitizer [] = .error (.truncated 4 0) ∧
    (coverageFrom ⟨.l2, "indvars", 32⟩ indexTests indexChecks repeatedEvidence.table (.memory [])
      firstEntered {}).1 = (.error (.truncated 4 0), firstEntered) := by
  have hdistinct : indexChecks.Distinct := by decide
  have hread : SanitizerEvidence.ofTrace indexChecks.sanitizer
      (Trace.encode repeatedEvidence.records) = .ok repeatedEvidence :=
    SanitizerEvidence.ofTrace_eq_ok_iff.mpr ⟨repeatedEvidence.records, by decide +kernel, rfl⟩
  have hfits : ∀ r ∈ repeatedEvidence.records, r.left.toNat + r.right.toNat ≤ Count.limit := by
    decide
  have hrefused : Trace.decode indexChecks.sanitizer [] = .error (.truncated 4 0) := by decide
  have hfresh := Session.faithful_fresh indexTests
  obtain ⟨entered, after, hgives, hadds⟩ :=
    (coverageFrom_adds (s := ⟨.l2, "indvars", 32⟩) hdistinct
      (.memory (Trace.encode repeatedEvidence.records)) firstEntered hfresh).1 repeatedEvidence
      hread hfits
  have hnumber : (coverageFrom ⟨.l2, "indvars", 32⟩ indexTests indexChecks repeatedEvidence.table
      (.memory (Trace.encode repeatedEvidence.records)) firstEntered {}).1.1 = .ok 2 := by
    decide +kernel
  have hentries : (coverageFrom ⟨.l2, "indvars", 32⟩ indexTests indexChecks repeatedEvidence.table
      (.memory (Trace.encode repeatedEvidence.records)) firstEntered {}).1.2.entries =
        [(⟨1⟩, ⟨8, .user, ⟨100⟩⟩), (⟨2⟩, ⟨8, .coverage, ⟨1⟩⟩), (⟨4⟩, ⟨8, .coverage, ⟨1⟩⟩)] := by
    decide +kernel
  rw [hgives] at hnumber hentries
  obtain rfl : entered = 2 := Except.ok.inj hnumber
  exact ⟨hdistinct, hread, hfits, ⟨after, hgives, hadds, hentries⟩, hrefused,
    (coverageFrom_adds hdistinct (.memory []) firstEntered hfresh).2 _ hrefused _⟩

end Phases

/-- In a run with coverage the second phase reads the trace again, and a trace that is refused
becomes a warning. -/
theorem Analysis.coveragePass_eq_coverageFrom {s : Settings} {p : Program} {checks : Inventory}
    {f : Findings} {sanitizer : SanitizerEvidence} {trace : TraceSource}
    (hon : s.phases.coverage = true) (hsanitizer : f.evidence.sanitizer = some sanitizer)
    (htrace : f.trace = some trace) (l : Ledger) :
    coveragePass s p checks f l = (do
      let (answer, after) ← Phases.coverageFrom (strategy s) p checks sanitizer.table trace l
      match answer with
      | .ok _ => return (after, [])
      | .error cause => return (after, [.coverageSkipped cause.message])) := by
  simp only [coveragePass, hsanitizer, htrace, hon, if_true]
  rw [Phases.coverageFrom]
  cases Trace.read checks.sanitizer trace with
  | error cause => rfl
  | ok records =>
    exact (Phases.counted_bind (Phases.counts_coverage (strategy s) p checks _ records) l
      fun after => pure (after, [])).symm

end GuardElision
