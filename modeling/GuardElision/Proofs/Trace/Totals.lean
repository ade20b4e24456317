import GuardElision.Proofs.Trace.Codec
import GuardElision.Trace.Evidence
import Mathlib.Data.List.Nodup

/-!
# Totals of ingested traces

Reading a trace gives one record for each check, in the order of the checks. The pattern table
made from the records files the check at a position under the total of the record at that
position and nowhere else, and the total of a check is looked up by its number. As long as no two
checks have one number, both ways lead to the same total.
-/

namespace GuardElision

/-- The total does not depend on which way is called left. -/
theorem Record.total_comm {r r' : Record} (hleft : r.left = r'.right)
    (hright : r.right = r'.left) : r.total = r'.total := by
  rw [total, total, hleft, hright, Count.add, Count.add, Nat.add_comm]

namespace Trace

/-- A trace that is read has the record of each check at the check's position. -/
theorem map_id_decode {checks : List Check} {bytes : List UInt8} {records : List Record}
    (h : decode checks bytes = .ok records) : records.map Record.id = checks.map Check.id := by
  have hreads := reads_decode checks bytes
  rw [h] at hreads
  cases hreads with
  | records _ hbelong =>
    apply List.ext_getElem
    · simp
    · intro k _ hk
      have hlt : k < checks.length := by simpa using hk
      simpa using hbelong k _ hlt (List.getElem?_eq_getElem hlt)

/-- The same of whatever a trace is read from. -/
theorem map_id_read {checks : List Check} {source : TraceSource} {records : List Record}
    (h : read checks source = .ok records) : records.map Record.id = checks.map Check.id := by
  obtain ⟨_, _, hdecode⟩ := read_eq_ok_iff.mp h
  exact map_id_decode hdecode

end Trace

namespace PatternTable

theorem bucket_push (t : PatternTable) (total other : Count) (entry : PatternEntry) :
    bucket (push t total entry) other =
      if other = total then bucket t total ++ [entry] else bucket t other := by
  rw [bucket, push, SortedMap.find?_insert]
  split <;> rfl

end PatternTable

namespace SanitizerEvidence

/-- Behind what a table holds under a total come the entries of the checks with that total, in the
order of the checks. -/
private theorem bucket_arrange (ordinal : Nat) (checks : List Check) (records : List Record)
    (table : PatternTable) (total : Count) :
    PatternTable.bucket (arrange ordinal checks records table) total =
      PatternTable.bucket table total ++
        (((checks.zip records).zipIdx ordinal).filter fun x => x.1.2.total == total).map
          fun x => entryOf x.2 x.1.1 x.1.2 := by
  induction checks generalizing ordinal records table with
  | nil => simp [arrange]
  | cons c checks ih =>
    cases records with
    | nil => simp [arrange]
    | cons r records =>
      rw [arrange, ih, PatternTable.bucket_push, List.zip_cons_cons, List.zipIdx_cons,
        List.filter_cons]
      by_cases htotal : r.total = total
      · simp [htotal]
      · have hother : total ≠ r.total := fun heq => htotal heq.symm
        simp [htotal, hother]

/-- The table lists the checks with a total in their order, each with its record. -/
theorem bucket_ofRecords (checks : List Check) (records : List Record) (total : Count) :
    PatternTable.bucket (ofRecords checks records).table total =
      ((checks.zip records).zipIdx.filter fun x => x.1.2.total == total).map
        fun x => entryOf x.2 x.1.1 x.1.2 := by
  rw [ofRecords, bucket_arrange]
  rfl

/-- The table files the check at a position under the total of the record at that position. -/
theorem mem_bucket_ofRecords_iff {checks : List Check} {records : List Record} {total : Count}
    {entry : PatternEntry} :
    entry ∈ PatternTable.bucket (ofRecords checks records).table total ↔
      ∃ (i : Nat) (c : Check) (r : Record), checks[i]? = some c ∧ records[i]? = some r ∧
        r.total = total ∧ entry = entryOf i c r := by
  simp only [bucket_ofRecords, List.mem_map, List.mem_filter, beq_iff_eq, Prod.exists,
    List.mem_zipIdx_iff_getElem?, List.getElem?_zip_eq_some]
  constructor
  · rintro ⟨c, r, i, ⟨⟨hc, hr⟩, htotal⟩, rfl⟩
    exact ⟨i, c, r, hc, hr, htotal, rfl⟩
  · rintro ⟨i, c, r, hc, hr, htotal, rfl⟩
    exact ⟨c, r, i, ⟨⟨hc, hr⟩, htotal⟩, rfl⟩

/-- The table files a check under the total of the record at the check's position. -/
theorem of_mem_bucket_ofRecords {checks : List Check} {records : List Record} {total : Count}
    {entry : PatternEntry}
    (h : entry ∈ PatternTable.bucket (ofRecords checks records).table total) :
    ∃ r : Record, records[entry.ordinal]? = some r ∧ r.total = total := by
  obtain ⟨i, c, r, _, hr, htotal, rfl⟩ := mem_bucket_ofRecords_iff.mp h
  exact ⟨r, hr, htotal⟩

theorem ofSource_eq_ok_iff {checks : List Check} {source : TraceSource} {e : SanitizerEvidence} :
    ofSource checks source = .ok e ↔
      ∃ records, Trace.read checks source = .ok records ∧ e = ofRecords checks records := by
  unfold ofSource
  cases Trace.read checks source with
  | error cause => simp [bind, Except.bind]
  | ok records => simp [bind, Except.bind, pure, Except.pure, eq_comm]

theorem ofSource_eq_error_iff {checks : List Check} {source : TraceSource}
    {cause : EvidenceError} :
    ofSource checks source = .error cause ↔ Trace.read checks source = .error cause := by
  unfold ofSource
  cases Trace.read checks source with
  | error cause => simp [bind, Except.bind]
  | ok records => simp [bind, Except.bind, pure, Except.pure]

theorem ofTrace_eq_ok_iff {checks : List Check} {bytes : List UInt8} {e : SanitizerEvidence} :
    ofTrace checks bytes = .ok e ↔
      ∃ records, Trace.decode checks bytes = .ok records ∧ e = ofRecords checks records :=
  ofSource_eq_ok_iff

/-- The total of the check at a position is that of the record at that position. -/
theorem totalOf?_ofRecords {checks : List Check} {records : List Record}
    (hids : records.map Record.id = checks.map Check.id) (hdistinct : (checks.map Check.id).Nodup)
    {i : Nat} {c : Check} {r : Record} (hc : checks[i]? = some c) (hr : records[i]? = some r) :
    (ofRecords checks records).totalOf? c.id = some r.total := by
  have hid : r.id = c.id := by
    have hget : (records.map Record.id)[i]? = some c.id := by simp [hids, hc]
    simpa [hr] using hget
  have hmem : r ∈ records := List.mem_of_getElem? hr
  have hsome : (records.find? fun x => x.id == c.id).isSome = true :=
    List.find?_isSome.mpr ⟨r, hmem, by simp [hid]⟩
  obtain ⟨found, hfound⟩ := Option.isSome_iff_exists.mp hsome
  have hsame : found.id = r.id := by simpa [hid] using List.find?_some hfound
  have hfound_eq : found = r :=
    List.inj_on_of_nodup_map (hids ▸ hdistinct) (List.mem_of_find?_eq_some hfound) hmem hsame
  rw [totalOf?, ofRecords, hfound, hfound_eq]
  rfl

end SanitizerEvidence

end GuardElision
