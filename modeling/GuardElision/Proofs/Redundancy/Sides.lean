import GuardElision.Proofs.Redundancy.UserCounts

/-!
# Exchanging the sides of a user record

Which way of a branch is called left is of no importance to the totals, nor to the comparison of
both counts in either order. But when the total of a user record leads to no bucket, the first
phase looks up its left count, and the right count only if the left one leads nowhere. So the
exchange of the two counts of a record goes unnoticed unless its total leads to no bucket and both
of its sides lead to one; then the two buckets have to cover the same checks, as far as these are
not entered anyway.
-/

namespace GuardElision

/-- The record with its sides exchanged. -/
def Record.exchanged (r : Record) : Record := { r with left := r.right, right := r.left }

namespace Record

theorem total_exchanged (r : Record) : r.exchanged.total = r.total := total_comm rfl rfl

theorem sameSplit_exchanged (r : Record) (left right : Count) :
    r.exchanged.sameSplit left right = r.sameSplit left right := by
  simp only [sameSplit, exchanged]
  rw [Bool.or_comm, Bool.and_comm, Bool.and_comm (r.right == left)]

end Record

namespace Phases

open Compare

/-- A user check with a record covers the check with a number. -/
def RecordCovers (s : Strategy) (p : Program) (checks : Inventory) (table : PatternTable)
    (u : Check) (r : Record) (id : CheckId) : Prop :=
  ∃ c reason, c.id = id ∧ RecordOffer s p checks table u r c reason

/-- A user check covers the check with a number if it went one way so often. -/
def SideCovers (s : Strategy) (p : Program) (checks : Inventory) (table : PatternTable)
    (u : Check) (count : Count) (id : CheckId) : Prop :=
  ∃ entry ∈ PatternTable.bucket table count, entry.isOneSided = true ∧
    ∃ c, checks.sanitizer[entry.ordinal]? = some c ∧ c.id = id ∧
      (s.subsumed p c u .coverage).verdict = true

/-- A user check at another position covers the check with a number. -/
def CoveredElsewhere (s : Strategy) (p : Program) (checks : Inventory) (table : PatternTable)
    (records : List Record) (k : Nat) (id : CheckId) : Prop :=
  ∃ j u r, j ≠ k ∧ checks.user[j]? = some u ∧ records[j]? = some r ∧
    RecordCovers s p checks table u r id

section OneRecord

variable (s : Strategy) (p : Program) (checks : Inventory) (table : PatternTable) (u : Check)
  (r : Record) (id : CheckId)

/-- By its total a record covers the same checks whichever way is called left. -/
private theorem recordCovers_exchanged_of_total (husable : usable table r.total = true)
    (h : RecordCovers s p checks table u r id) :
    RecordCovers s p checks table u r.exchanged id := by
  obtain ⟨c, _, hid, count, entry, hprobe, hget, hcovers, _⟩ := h
  cases hprobe with
  | left hnot => cases husable.symm.trans hnot
  | right hnot => cases husable.symm.trans hnot
  | total _ hentry =>
    rw [← Record.total_exchanged] at husable hentry
    refine ⟨c, _, hid, r.exchanged.total, entry, .total husable hentry, hget, ?_, rfl⟩
    rw [ProbeCovers, Record.total_exchanged, Record.sameSplit_exchanged]
    exact hcovers

/-- Without its total a record covers by its left count, or else by its right count. -/
private theorem recordCovers_iff_sides (hnot : usable table r.total = false) :
    RecordCovers s p checks table u r id ↔
      usable table r.left = true ∧ SideCovers s p checks table u r.left id ∨
      usable table r.left = false ∧ usable table r.right = true ∧
        SideCovers s p checks table u r.right id := by
  have hcovers : ∀ entry c, ProbeCovers s p table r entry c u ↔
      (s.subsumed p c u .coverage).verdict = true := by
    intro entry c
    rw [ProbeCovers, if_neg (by simp [hnot])]
  constructor
  · rintro ⟨c, _, hid, count, entry, hprobe, hget, hsub, _⟩
    rw [hcovers] at hsub
    cases hprobe with
    | total husable => cases husable.symm.trans hnot
    | left _ hleft hentry hside => exact .inl ⟨hleft, entry, hentry, hside, c, hget, hid, hsub⟩
    | right _ hleft hright hentry hside =>
      exact .inr ⟨hleft, hright, entry, hentry, hside, c, hget, hid, hsub⟩
  · rintro (⟨hleft, entry, hentry, hside, c, hget, hid, hsub⟩ |
      ⟨hleft, hright, entry, hentry, hside, c, hget, hid, hsub⟩)
    · exact ⟨c, _, hid, r.left, entry, .left hnot hleft hentry hside, hget,
        (hcovers entry c).mpr hsub, rfl⟩
    · exact ⟨c, _, hid, r.right, entry, .right hnot hleft hright hentry hside, hget,
        (hcovers entry c).mpr hsub, rfl⟩

/-- For one check, the exchange goes unnoticed unless the record is without its total and one of two
usable sides covers the check while the other one does not. -/
private theorem recordCovers_exchanged_iff :
    (RecordCovers s p checks table u r.exchanged id ↔ RecordCovers s p checks table u r id) ↔
      (usable table r.total = false → usable table r.left = true → usable table r.right = true →
        (SideCovers s p checks table u r.left id ↔ SideCovers s p checks table u r.right id)) := by
  cases htotal : usable table r.total with
  | true =>
    refine iff_of_true ⟨?_, recordCovers_exchanged_of_total s p checks table u r id htotal⟩ nofun
    exact recordCovers_exchanged_of_total s p checks table u r.exchanged id
      (r.total_exchanged ▸ htotal)
  | false =>
    rw [recordCovers_iff_sides s p checks table u r id htotal,
      recordCovers_iff_sides s p checks table u r.exchanged id (r.total_exchanged ▸ htotal)]
    dsimp only [Record.exchanged]
    cases usable table r.left <;> cases usable table r.right <;> simp [iff_comm]

end OneRecord

section

variable (s : Strategy) (p : Program) (checks : Inventory) (table : PatternTable)

/-- After the first phase, a check is in the ledger if it was there, if the user check at some
position covers it, or if one at another position does. -/
private theorem contains_user_iff (records : List Record) (k : Nat) (l : Ledger)
    {session : Session} (hs : session.Faithful p) (id : CheckId) :
    (user s p checks table records l session).1.contains id = true ↔
      l.contains id = true ∨ CoveredElsewhere s p checks table records k id ∨
        ∃ u r, checks.user[k]? = some u ∧ records[k]? = some r ∧
          RecordCovers s p checks table u r id := by
  rw [(settles_user s p checks table records).contains_after_iff l hs]
  refine or_congr_right ?_
  constructor
  · rintro ⟨reason, c, hid, u, r, hmem, hoffer⟩
    obtain ⟨j, hj⟩ := List.mem_iff_getElem?.mp hmem
    obtain ⟨hu, hr⟩ := List.getElem?_zip_eq_some.mp hj
    by_cases hk : j = k
    · subst hk
      exact .inr ⟨u, r, hu, hr, c, reason, hid, hoffer⟩
    · exact .inl ⟨j, u, r, hk, hu, hr, c, reason, hid, hoffer⟩
  · have hoffered : ∀ {j : Nat} {u r}, checks.user[j]? = some u → records[j]? = some r →
        RecordCovers s p checks table u r id → ∃ reason candidate, candidate.id = id ∧
          UserOffer s p checks table records candidate reason := by
      rintro j u r hu hr ⟨c, reason, hid, hoffer⟩
      have hpair : (checks.user.zip records)[j]? = some (u, r) :=
        List.getElem?_zip_eq_some.mpr ⟨hu, hr⟩
      exact ⟨reason, c, hid, u, r, List.mem_of_getElem? hpair, hoffer⟩
    rintro (⟨j, u, r, _, hu, hr, hcovers⟩ | ⟨u, r, hu, hr, hcovers⟩)
    · exact hoffered hu hr hcovers
    · exact hoffered hu hr hcovers

/-- A change to the record at a position leaves the other positions alone. -/
private theorem coveredElsewhere_modify_iff (records : List Record) (k : Nat) (f : Record → Record)
    (id : CheckId) : CoveredElsewhere s p checks table (records.modify k f) k id ↔
      CoveredElsewhere s p checks table records k id := by
  have hget : ∀ j, j ≠ k → (records.modify k f)[j]? = records[j]? := by
    intro j hj
    exact List.getElem?_modify_ne f records hj.symm
  constructor
  · rintro ⟨j, u, r, hj, hu, hr, hcovers⟩
    exact ⟨j, u, r, hj, hu, hget j hj ▸ hr, hcovers⟩
  · rintro ⟨j, u, r, hj, hu, hr, hcovers⟩
    exact ⟨j, u, r, hj, hu, (hget j hj).symm ▸ hr, hcovers⟩

/-- For one check, the exchange of a record goes unnoticed if the check is in the ledger or covered
from another position, or else if the record covers it with its sides exchanged as it did before. -/
private theorem contains_user_exchanged_iff (records : List Record) (k : Nat) (l : Ledger)
    {session session' : Session} (hs : session.Faithful p) (hs' : session'.Faithful p)
    (id : CheckId) :
    (user s p checks table (records.modify k Record.exchanged) l session').1.contains id =
        (user s p checks table records l session).1.contains id ↔
      (l.contains id = false → ¬ CoveredElsewhere s p checks table records k id →
        ∀ u r, checks.user[k]? = some u → records[k]? = some r →
          (RecordCovers s p checks table u r.exchanged id ↔
            RecordCovers s p checks table u r id)) := by
  rw [Bool.eq_iff_iff, contains_user_iff s p checks table _ k l hs',
    contains_user_iff s p checks table records k l hs, coveredElsewhere_modify_iff,
    List.getElem?_modify_eq]
  constructor
  · intro hsame hnew hnot u r hu hr
    simpa [hnew, hnot, hu, hr] using hsame
  · intro hrecord
    by_cases hnew : l.contains id = true
    · simp [hnew]
    by_cases hnot : CoveredElsewhere s p checks table records k id
    · simp [hnot]
    rw [Bool.not_eq_true] at hnew
    refine or_congr_right (or_congr_right (exists_congr fun u => ?_))
    cases hu : checks.user[k]? with
    | none => simp
    | some v =>
      cases hr : records[k]? with
      | none => simp
      | some r =>
        simp only [Option.map_eq_map, Option.map_some, Option.some.injEq, exists_and_left,
          exists_eq_left']
        refine and_congr_right fun heq => ?_
        exact hrecord hnew hnot u r (heq ▸ hu) hr

/-- Exchanging the sides of the record at one position leaves the first phase entering the same
checks exactly if, where the total of the record leads to no bucket and both sides lead to one, the
two sides cover the same of the checks that are neither in the ledger nor covered by a user check
at another position. -/
theorem user_exchanged_iff (records : List Record) (k : Nat) (l : Ledger)
    {session session' : Session} (hs : session.Faithful p) (hs' : session'.Faithful p) :
    (∀ id, (user s p checks table (records.modify k Record.exchanged) l session').1.contains id =
        (user s p checks table records l session).1.contains id) ↔
      ∀ u r, checks.user[k]? = some u → records[k]? = some r → usable table r.total = false →
        usable table r.left = true → usable table r.right = true →
        ∀ id, l.contains id = false → ¬ CoveredElsewhere s p checks table records k id →
          (SideCovers s p checks table u r.left id ↔ SideCovers s p checks table u r.right id) := by
  rw [forall_congr' (contains_user_exchanged_iff s p checks table records k l hs hs')]
  constructor
  · intro hsame u r hu hr htotal hleft hright id hnew hnot
    have hrecord := hsame id hnew hnot u r hu hr
    exact (recordCovers_exchanged_iff s p checks table u r id).mp hrecord htotal hleft hright
  · intro hsides id hnew hnot u r hu hr
    refine (recordCovers_exchanged_iff s p checks table u r id).mpr fun htotal hleft hright => ?_
    exact hsides u r hu hr htotal hleft hright id hnew hnot

end

/-- The sides of the first user record may be exchanged: only one of them leads to a bucket. -/
theorem indexTests_user_exchanged :
    usable indexEvidence.table 12 = false ∧ usable indexEvidence.table 7 = true ∧
    usable indexEvidence.table 5 = false ∧
    ∀ id, (user ⟨.l2, "indvars", 32⟩ indexTests indexChecks indexEvidence.table
        [⟨⟨100⟩, 5, 7⟩, ⟨⟨101⟩, 6, 4⟩] (.empty : Ledger) {}).1.contains id =
      (user ⟨.l2, "indvars", 32⟩ indexTests indexChecks indexEvidence.table
        [⟨⟨100⟩, 7, 5⟩, ⟨⟨101⟩, 6, 4⟩] (.empty : Ledger) {}).1.contains id := by
  have hright : usable indexEvidence.table 5 = false := by decide +kernel
  have hfresh := Session.faithful_fresh indexTests
  refine ⟨by decide +kernel, by decide +kernel, hright, ?_⟩
  refine (user_exchanged_iff ⟨.l2, "indvars", 32⟩ indexTests indexChecks indexEvidence.table
    [⟨⟨100⟩, 7, 5⟩, ⟨⟨101⟩, 6, 4⟩] 0 .empty hfresh hfresh).mpr ?_
  intro u r _ hr _ _ husable
  obtain rfl : (⟨⟨100⟩, 7, 5⟩ : Record) = r := Option.some.inj hr
  cases hright.symm.trans husable

/-- Coverage in which the first sanitizer check went both ways and the second one always passed. -/
def sidedEvidence : SanitizerEvidence :=
  .ofRecords indexChecks.sanitizer [⟨⟨1⟩, 1, 2⟩, ⟨⟨2⟩, 5, 0⟩, ⟨⟨3⟩, 0, 0⟩, ⟨⟨4⟩, 0, 0⟩]

/-- A left count that leads to a check that went both ways hides the right count: the second check
is entered only if the sides are exchanged. -/
theorem sided_user_exchanged :
    (user ⟨.l2, "indvars", 32⟩ indexTests indexChecks sidedEvidence.table
      [⟨⟨100⟩, 3, 5⟩, ⟨⟨101⟩, 0, 0⟩] (.empty : Ledger) {}).1.keys = [] ∧
    (user ⟨.l2, "indvars", 32⟩ indexTests indexChecks sidedEvidence.table
      (List.modify [⟨⟨100⟩, 3, 5⟩, ⟨⟨101⟩, 0, 0⟩] 0 Record.exchanged) (.empty : Ledger) {}).1.keys =
        [⟨2⟩] := by
  constructor
  · decide +kernel
  · decide +kernel

end Phases

end GuardElision
