import GuardElision.Proofs.Ordered.Map
import GuardElision.Proofs.Trace.Totals
import Mathlib.Algebra.BigOperators.Group.List.Lemmas

/-!
# Records arranged by their totals

The pattern table is what the first two phases know of the sanitizer checks: a check that stood in
the wrong bucket, in two buckets or in none would be compared with the wrong checks. So the table
is described without the way it is made: the position of a check is found in the bucket of its
total, with its own counts and branch, and in no other place; a bucket goes by ascending position;
there is a bucket for each total that occurs and for no other one. In number and in weight nothing
is lost either, except where the weight exceeds a word.
-/

namespace GuardElision

namespace PatternTable

theorem contains_push (t : PatternTable) (total other : Count) (entry : PatternEntry) :
    (push t total entry).contains other = (other == total || t.contains other) := by
  rw [SortedMap.contains, push, SortedMap.find?_insert]
  by_cases h : other = total <;> simp [h, SortedMap.contains]

theorem mem_keys_iff (t : PatternTable) (total : Count) :
    total ∈ t.keys ↔ t.contains total = true := by
  simp only [SortedMap.keys, List.mem_map, SortedMap.contains, Option.isSome_iff_exists,
    ← t.mem_entries_iff]
  constructor
  · rintro ⟨e, he, rfl⟩
    exact ⟨e.2, he⟩
  · rintro ⟨entries, he⟩
    exact ⟨_, he, rfl⟩

/-- No total has two buckets. -/
theorem nodup_keys (t : PatternTable) : t.keys.Nodup := by
  rw [SortedMap.keys, List.Nodup, List.pairwise_map]
  refine t.ascending.imp fun hlt heq => ?_
  rw [heq] at hlt
  exact Nat.lt_irrefl _ hlt

/-- The number of entries is that of all buckets together. -/
theorem entryCount_eq (t : PatternTable) :
    entryCount t = (t.keys.map fun total => (bucket t total).length).sum := by
  have hbucket : ∀ e ∈ t.entries, e.2.length = (bucket t e.1).length := by
    intro e he
    rw [bucket, (t.mem_entries_iff e.1 e.2).mp he]
    rfl
  rw [entryCount, ← List.foldl_map, ← List.sum_eq_foldl, SortedMap.values, SortedMap.keys,
    List.map_map, List.map_map]
  exact congrArg List.sum (List.map_congr_left hbucket)

end PatternTable

namespace SanitizerEvidence

/-- Evidence arranges the records of some checks by their totals, each record once. -/
structure Arranges (e : SanitizerEvidence) (checks : List Check) (records : List Record) :
    Prop where
  records_eq : e.records = records
  length_eq : records.length = checks.length
  checkCount_eq : e.checkCount = checks.length
  /-- A check's position is found in the bucket of its total, with its record and its branch, and
  nowhere else. -/
  filed : ∀ (k : Nat) (c : Check) (r : Record), checks[k]? = some c → records[k]? = some r →
    ∀ (total : Count) (entry : PatternEntry),
      entry ∈ PatternTable.bucket e.table total ∧ entry.ordinal = k ↔
        total.toNat = min (r.left.toNat + r.right.toNat) Count.limit ∧
          entry = { id := r.id, left := r.left, right := r.right, branch := c.branch, ordinal := k }
  /-- Only positions of checks are found. -/
  ordinal_lt : ∀ total, ∀ entry ∈ PatternTable.bucket e.table total, entry.ordinal < checks.length
  ascending : ∀ total, (PatternTable.bucket e.table total).Pairwise fun a b => a.ordinal < b.ordinal
  /-- There is a bucket for each total that occurs. -/
  mem_keys_iff : ∀ total, total ∈ e.table.keys ↔ ∃ r ∈ records, r.total = total
  entryCount_eq : PatternTable.entryCount e.table = checks.length
  weight_eq : e.weight.toNat = min (records.map fun r => r.total.toNat).sum Count.limit
  /-- Where numbers tell the checks apart, each check's total is found by its number. -/
  totalOf?_eq : (checks.map Check.id).Nodup → ∀ (k : Nat) (c : Check) (r : Record),
    checks[k]? = some c → records[k]? = some r → e.totalOf? c.id = some r.total
  totalOf?_eq_none : ∀ id, id ∉ checks.map Check.id → e.totalOf? id = none

section Arranged

variable {checks : List Check} {records : List Record}

/-- Arranging some checks makes the buckets of their totals. -/
private theorem contains_arrange (ordinal : Nat) (hlength : records.length = checks.length)
    (table : PatternTable) (total : Count) :
    (arrange ordinal checks records table).contains total = true ↔
      table.contains total = true ∨ ∃ r ∈ records, r.total = total := by
  induction checks generalizing ordinal records table with
  | nil =>
    obtain rfl : records = [] := List.length_eq_zero_iff.mp hlength
    simp [arrange]
  | cons c checks ih =>
    cases records with
    | nil => simp at hlength
    | cons r records =>
      rw [arrange, ih (ordinal + 1) (by simpa using hlength), PatternTable.contains_push,
        List.exists_mem_cons_iff, Bool.or_eq_true, beq_iff_eq, or_comm (a := total = r.total),
        or_assoc, eq_comm (a := total)]

theorem mem_keys_ofRecords_iff (hlength : records.length = checks.length) (total : Count) :
    total ∈ (ofRecords checks records).table.keys ↔ ∃ r ∈ records, r.total = total := by
  rw [PatternTable.mem_keys_iff, ofRecords, contains_arrange 0 hlength]
  simp [SortedMap.contains]

/-- A bucket holds as many entries as there are records with its total. -/
theorem length_bucket_ofRecords (hlength : records.length = checks.length) (total : Count) :
    (PatternTable.bucket (ofRecords checks records).table total).length =
      (records.map Record.total).count total := by
  have hrecords : (checks.zip records).zipIdx.map (fun x => x.1.2) = records := by
    have hmap : (checks.zip records).zipIdx.map (fun x => x.1.2) =
        ((checks.zip records).zipIdx.map Prod.fst).map Prod.snd := by
      rw [List.map_map]
      rfl
    rw [hmap, List.zipIdx_map_fst, List.map_snd_zip hlength.le]
  rw [bucket_ofRecords, List.length_map, ← List.countP_eq_length_filter, List.count,
    List.countP_map]
  conv_rhs => rw [← hrecords, List.countP_map]
  rfl

/-- Each record is filed once. -/
theorem entryCount_ofRecords (hlength : records.length = checks.length) :
    PatternTable.entryCount (ofRecords checks records).table = checks.length := by
  have hkeys : (ofRecords checks records).table.keys.Perm (records.map Record.total).dedup := by
    rw [List.perm_ext_iff_of_nodup (PatternTable.nodup_keys _) (List.nodup_dedup _)]
    intro total
    rw [mem_keys_ofRecords_iff hlength, List.mem_dedup, List.mem_map]
  calc PatternTable.entryCount (ofRecords checks records).table
    _ = ((ofRecords checks records).table.keys.map fun total =>
          (records.map Record.total).count total).sum := by
        simp only [PatternTable.entryCount_eq, length_bucket_ofRecords hlength]
    _ = ((records.map Record.total).dedup.map fun total =>
          (records.map Record.total).count total).sum := (hkeys.map _).sum_eq
    _ = checks.length := by rw [List.sum_map_count_dedup_eq_length, List.length_map, hlength]

/-- A bucket goes by ascending position. -/
theorem ascending_bucket_ofRecords (checks : List Check) (records : List Record) (total : Count) :
    (PatternTable.bucket (ofRecords checks records).table total).Pairwise
      fun a b => a.ordinal < b.ordinal := by
  have hplaces : (checks.zip records).zipIdx.Pairwise fun x y => x.2 < y.2 := by
    rw [← List.pairwise_map (f := Prod.snd) (R := (· < ·)), List.zipIdx_map_snd]
    exact List.pairwise_lt_range'
  rw [bucket_ofRecords, List.pairwise_map]
  exact hplaces.filter _

/-- A check's position is found in the bucket of its total and nowhere else. -/
theorem mem_bucket_and_ordinal_iff {k : Nat} {c : Check} {r : Record} (hc : checks[k]? = some c)
    (hr : records[k]? = some r) (total : Count) (entry : PatternEntry) :
    entry ∈ PatternTable.bucket (ofRecords checks records).table total ∧ entry.ordinal = k ↔
      r.total = total ∧ entry = entryOf k c r := by
  rw [mem_bucket_ofRecords_iff]
  constructor
  · rintro ⟨⟨i, c', r', hc', hr', htotal, rfl⟩, rfl⟩
    obtain rfl := Option.some.inj (hc'.symm.trans hc)
    obtain rfl := Option.some.inj (hr'.symm.trans hr)
    exact ⟨htotal, rfl⟩
  · rintro ⟨htotal, rfl⟩
    exact ⟨⟨k, c, r, hc, hr, htotal, rfl⟩, rfl⟩

theorem totalOf?_ofRecords_eq_none (hids : records.map Record.id = checks.map Check.id)
    {id : CheckId} (h : id ∉ checks.map Check.id) :
    (ofRecords checks records).totalOf? id = none := by
  rw [totalOf?, ofRecords, Option.map_eq_none_iff, List.find?_eq_none]
  intro r hr hid
  have hmem : r.id ∈ records.map Record.id := List.mem_map_of_mem hr
  rw [hids, beq_iff_eq.mp hid] at hmem
  exact h hmem

end Arranged

/-- A total is the sum of the two counts, stuck at the largest word. -/
private theorem total_eq_iff (r : Record) (total : Count) :
    r.total = total ↔ total.toNat = min (r.left.toNat + r.right.toNat) Count.limit := by
  rw [← UInt64.toNat_inj, Record.total, Count.toNat_add, eq_comm]

/-- A trace that is read gives evidence in which every record is filed once and in its place. -/
theorem ofTrace_arranges {checks : List Check} {bytes : List UInt8} {records : List Record}
    (h : Trace.decode checks bytes = .ok records) :
    ∃ e, ofTrace checks bytes = .ok e ∧ e.Arranges checks records := by
  have hids := Trace.map_id_decode h
  have hlength : records.length = checks.length := by simpa using congrArg List.length hids
  refine ⟨ofRecords checks records, ofTrace_eq_ok_iff.mpr ⟨records, h, rfl⟩, rfl, hlength, rfl, ?_,
    ?_, ascending_bucket_ofRecords checks records, mem_keys_ofRecords_iff hlength,
    entryCount_ofRecords hlength, ?_, ?_, fun id => totalOf?_ofRecords_eq_none hids⟩
  · intro k c r hc hr total entry
    rw [mem_bucket_and_ordinal_iff hc hr, total_eq_iff]
    rfl
  · intro total entry hentry
    obtain ⟨i, c, r, hc, _, _, rfl⟩ := mem_bucket_ofRecords_iff.mp hentry
    exact (List.getElem?_eq_some_iff.mp hc).1
  · rw [ofRecords, Count.toNat_sum, List.map_map]
    rfl
  · intro hdistinct k c r hc hr
    exact totalOf?_ofRecords hids hdistinct hc hr

/-- The first and the third check ran equally often, the second never, and the last more often than
a word can tell. -/
def assorted : List Record :=
  [{ id := ⟨1⟩, left := 4, right := 6 }, { id := ⟨2⟩, left := 0, right := 0 },
    { id := ⟨3⟩, left := 10, right := 0 }, { id := ⟨4⟩, left := 0xFFFFFFFFFFFFFFFF, right := 3 }]

/-- The checks of these records. -/
def assortedChecks : List Check :=
  [{ id := ⟨1⟩, branch := ⟨5⟩, origin := .sanitizer },
    { id := ⟨2⟩, branch := ⟨8⟩, origin := .sanitizer },
    { id := ⟨3⟩, branch := ⟨2⟩, origin := .sanitizer },
    { id := ⟨4⟩, branch := ⟨9⟩, origin := .sanitizer }]

/-- Equal totals share a bucket, in the order of the checks, and the weight is stuck at the largest
word. -/
theorem assorted_arranges :
    Trace.decode assortedChecks (Trace.encode assorted) = .ok assorted ∧
    ∃ e, ofTrace assortedChecks (Trace.encode assorted) = .ok e ∧
      e.Arranges assortedChecks assorted ∧
      e.table.entries.map (fun bucket => (bucket.1, bucket.2.map PatternEntry.ordinal)) =
        [(0, [1]), (10, [0, 2]), (0xFFFFFFFFFFFFFFFF, [3])] ∧
      e.weight = 0xFFFFFFFFFFFFFFFF := by
  have hdecode : Trace.decode assortedChecks (Trace.encode assorted) = .ok assorted := by
    decide +kernel
  obtain ⟨e, he, harranges⟩ := ofTrace_arranges hdecode
  obtain ⟨records, hrecords, rfl⟩ := ofTrace_eq_ok_iff.mp he
  obtain rfl := Except.ok.inj (hdecode.symm.trans hrecords)
  exact ⟨hdecode, _, he, harranges, by decide +kernel, by decide +kernel⟩

end SanitizerEvidence

end GuardElision
