import GuardElision.Proofs.Trace.Layout

/-!
# Reading and writing traces

How a trace is read is decided by its length and by the numbers in its whole records: as long as the
records belong to the checks at their places, reading goes on, and what it meets behind the last one
that does decides how it ends. So a wrong number comes before a missing record, and a missing record
before bytes that nobody asked for; a torn record counts as missing whatever it starts with.

A failure behind the bytes is met where their end would be, so it never lets a bad trace pass for a
good one, and never replaces an answer that was found before.

What was written is read back. Whatever is read is written back byte by byte, but for the stored
totals, which reading ignores and writing makes from the counts.
-/

namespace GuardElision

namespace Trace

/-- The first records of a trace belong to the checks at their places. -/
def Belong (checks : List Check) (bytes : List UInt8) (count : Nat) : Prop :=
  ∀ (k : Nat) (c : Check), k < count → checks[k]? = some c → (recordAt bytes k).id = c.id

/-- How the reading of a trace for the given checks ends. -/
inductive Reads (checks : List Check) (bytes : List UInt8) :
    Except EvidenceError (List Record) → Prop where
  /-- There is one record for each check, in the same order, and nothing else. -/
  | records : bytes.length = 32 * checks.length → Belong checks bytes checks.length →
      Reads checks bytes (.ok ((List.range checks.length).map (recordAt bytes)))
  /-- The first whole record that belongs to another check than the one at its place. -/
  | idMismatch {k : Nat} {c : Check} : k < bytes.length / 32 → checks[k]? = some c →
      (recordAt bytes k).id ≠ c.id → Belong checks bytes k →
      Reads checks bytes (.error (.idMismatch k c.id (recordAt bytes k).id))
  /-- The whole records belong to the checks, but there are not enough of them. -/
  | truncated : bytes.length < 32 * checks.length → Belong checks bytes (bytes.length / 32) →
      Reads checks bytes (.error (.truncated checks.length (bytes.length / 32)))
  /-- All checks have their records, and the trace goes on. -/
  | trailingRecords : 32 * checks.length < bytes.length → Belong checks bytes checks.length →
      Reads checks bytes (.error (.trailingRecords checks.length))

section Reading

variable {expected position : Nat} {checks : List Check} {bytes : List UInt8}

theorem Belong.mono {count fewer : Nat} (h : Belong checks bytes count) (hle : fewer ≤ count) :
    Belong checks bytes fewer :=
  fun k c hk hc => h k c (Nat.lt_of_lt_of_le hk hle) hc

theorem decode_eq_decodeFrom :
    decode checks bytes = decodeFrom checks.length none 0 checks bytes := rfl

/-- What is behind the last check is nothing, or too much. -/
private theorem decodeFrom_nil :
    decodeFrom expected none position [] bytes =
      if bytes = [] then .ok [] else .error (.trailingRecords expected) := by
  cases bytes <;> rfl

/-- Reading goes on behind the record of a check if it is there and belongs to the check. -/
private theorem decodeFrom_cons (c : Check) (rest : List Check) :
    decodeFrom expected none position (c :: rest) bytes =
      if 32 ≤ bytes.length then
        if (recordAt bytes 0).id = c.id then
          (decodeFrom expected none (position + 1) rest (bytes.drop 32)).map (recordAt bytes 0 :: ·)
        else .error (.idMismatch position c.id (recordAt bytes 0).id)
      else .error (.truncated expected position) := by
  rw [decodeFrom, takeRecord?_eq]
  by_cases hlength : 32 ≤ bytes.length
  · rw [if_pos hlength, if_pos hlength]
    rfl
  · rw [if_neg hlength, if_neg hlength]
    rfl

/-- One record further on in the middle of a trace. -/
private theorem decodeFrom_drop {m : Nat} {c : Check} (hc : checks[m]? = some c) :
    decodeFrom expected none (position + m) (checks.drop m) (bytes.drop (32 * m)) =
      if m < bytes.length / 32 then
        if (recordAt bytes m).id = c.id then
          (decodeFrom expected none (position + (m + 1)) (checks.drop (m + 1))
            (bytes.drop (32 * (m + 1)))).map (recordAt bytes m :: ·)
        else .error (.idMismatch (position + m) c.id (recordAt bytes m).id)
      else .error (.truncated expected (position + m)) := by
  obtain ⟨hm, rfl⟩ := List.getElem?_eq_some_iff.mp hc
  have hwhole : 32 ≤ bytes.length - 32 * m ↔ m < bytes.length / 32 := by omega
  rw [List.drop_eq_getElem_cons hm, decodeFrom_cons, recordAt_drop, List.length_drop,
    List.drop_drop]
  simp only [hwhole, Nat.add_zero, Nat.add_assoc, Nat.mul_add, Nat.mul_one]

/-- Records that belong to the checks at their places are read, whatever comes behind them. -/
private theorem decodeFrom_of_belong {m : Nat} (h : Belong checks bytes m)
    (hchecks : m ≤ checks.length) (hbytes : m ≤ bytes.length / 32) :
    decodeFrom expected none position checks bytes =
      (decodeFrom expected none (position + m) (checks.drop m) (bytes.drop (32 * m))).map
        ((List.range m).map (recordAt bytes) ++ ·) := by
  induction m with
  | zero =>
    show _ = Except.map id (decodeFrom expected none position checks bytes)
    cases decodeFrom expected none position checks bytes <;> rfl
  | succ m ih =>
    have hm : m < checks.length := by omega
    have hc := List.getElem?_eq_getElem hm
    have hbelongs : (recordAt bytes m).id = checks[m].id := h m _ (Nat.lt_succ_self m) hc
    rw [ih (h.mono (Nat.le_succ m)) (by omega) (by omega), decodeFrom_drop hc, if_pos (by omega),
      if_pos hbelongs]
    cases decodeFrom expected none (position + (m + 1)) (checks.drop (m + 1))
      (bytes.drop (32 * (m + 1))) with
    | error cause => rfl
    | ok tail => simp [Except.map, List.range_succ]

/-- The first records belong to the checks at their places, or there is a first one that does not. -/
private theorem belong_or_stranger (checks : List Check) (bytes : List UInt8) (count : Nat) :
    Belong checks bytes count ∨ ∃ k c, k < count ∧ checks[k]? = some c ∧
      (recordAt bytes k).id ≠ c.id ∧ Belong checks bytes k := by
  induction count with
  | zero => exact .inl nofun
  | succ count ih =>
    rcases ih with h | ⟨k, c, hk, hstranger⟩
    · by_cases hnext : ∀ c, checks[count]? = some c → (recordAt bytes count).id = c.id
      · refine .inl fun k c hk hc => ?_
        rcases Nat.lt_succ_iff_lt_or_eq.mp hk with hk | rfl
        · exact h k c hk hc
        · exact hnext c hc
      · obtain ⟨c, hc, hne⟩ : ∃ c, checks[count]? = some c ∧ (recordAt bytes count).id ≠ c.id := by
          simpa using hnext
        exact .inr ⟨count, c, Nat.lt_succ_self count, hc, hne, h⟩
    · exact .inr ⟨k, c, Nat.lt_succ_of_lt hk, hstranger⟩

/-- Every trace is read in one of the four ways. -/
private theorem exists_reads (checks : List Check) (bytes : List UInt8) :
    ∃ outcome, Reads checks bytes outcome := by
  rcases belong_or_stranger checks bytes (bytes.length / 32) with h | ⟨k, c, hk, hc, hne, h⟩
  · rcases Nat.lt_trichotomy bytes.length (32 * checks.length) with hlt | heq | hgt
    · exact ⟨_, .truncated hlt h⟩
    · exact ⟨_, .records heq (h.mono (by omega))⟩
    · exact ⟨_, .trailingRecords hgt (h.mono (by omega))⟩
  · exact ⟨_, .idMismatch hk hc hne h⟩

theorem Reads.decode_eq {outcome : Except EvidenceError (List Record)}
    (h : Reads checks bytes outcome) : decode checks bytes = outcome := by
  cases h with
  | records hlength hbelong =>
    rw [decode_eq_decodeFrom, decodeFrom_of_belong hbelong (Nat.le_refl _) (by omega), List.drop_length,
      ← hlength, List.drop_length, decodeFrom_nil, if_pos rfl]
    simp [Except.map]
  | @idMismatch k c hk hc hne hbelong =>
    have hlt := (List.getElem?_eq_some_iff.mp hc).1
    rw [decode_eq_decodeFrom, decodeFrom_of_belong hbelong (by omega) (by omega), decodeFrom_drop hc, if_pos hk,
      if_neg hne, Nat.zero_add]
    rfl
  | truncated hlength hbelong =>
    have hlt : bytes.length / 32 < checks.length := by omega
    rw [decode_eq_decodeFrom, decodeFrom_of_belong hbelong (by omega) (Nat.le_refl _),
      decodeFrom_drop (List.getElem?_eq_getElem hlt), if_neg (Nat.lt_irrefl _), Nat.zero_add]
    rfl
  | trailingRecords hlength hbelong =>
    have hrest : bytes.drop (32 * checks.length) ≠ [] := by
      rw [ne_eq, List.drop_eq_nil_iff]
      omega
    rw [decode_eq_decodeFrom, decodeFrom_of_belong hbelong (Nat.le_refl _) (by omega), List.drop_length,
      decodeFrom_nil, if_neg hrest]
    rfl

/-- Reading a trace ends as its length and the numbers in its records say. -/
theorem reads_decode (checks : List Check) (bytes : List UInt8) :
    Reads checks bytes (decode checks bytes) := by
  obtain ⟨outcome, h⟩ := exists_reads checks bytes
  exact h.decode_eq ▸ h

/-- Every trace in memory is read for every list of checks in exactly one way, which its length and
the numbers in its whole records decide. -/
theorem decode_eq_iff_reads (checks : List Check) (bytes : List UInt8)
    (outcome : Except EvidenceError (List Record)) :
    decode checks bytes = outcome ↔ Reads checks bytes outcome :=
  ⟨fun h => h ▸ reads_decode checks bytes, Reads.decode_eq⟩

/-- A torn record counts as missing, even if it starts with the number of another check. -/
example : decode [{ id := ⟨1⟩, branch := ⟨0⟩, origin := .user }] (List.replicate 31 7) =
    .error (.truncated 1 0) := by rfl

end Reading

/-- What is reported when reading fails behind some bytes that, were they all, would be read with
this answer. -/
def failing (cause : FileFailure) : Except EvidenceError (List Record) → EvidenceError
  | .ok _ => .unreadable cause
  | .error (.truncated expected position) => shortfall expected position (some cause)
  | .error earlier => earlier

private theorem decodeFrom_of_fault (expected position : Nat) (checks : List Check)
    (bytes : List UInt8) (cause : FileFailure) :
    decodeFrom expected (some cause) position checks bytes =
      .error (failing cause (decodeFrom expected none position checks bytes)) := by
  induction checks generalizing position bytes with
  | nil => cases bytes <;> rfl
  | cons c rest ih =>
    simp only [decodeFrom]
    cases takeRecord? bytes with
    | none => rfl
    | some first =>
      dsimp only
      split
      · rw [ih]
        cases decodeFrom expected none (position + 1) rest first.2 <;> rfl
      · rfl

/-- A failure behind the bytes shows where their end would: in place of the end of a good trace, and
of the rest of a record that is missing or torn. What was decided before that stands. -/
theorem read_of_fault (checks : List Check) (bytes : List UInt8) (cause : FileFailure) :
    read checks (.ok { bytes, fault := some cause }) =
      .error (failing cause (decode checks bytes)) :=
  decodeFrom_of_fault checks.length 0 checks bytes cause

/-- Whatever records are read were read to the end of the bytes, without a failure. -/
theorem read_eq_ok_iff {checks : List Check} {source : TraceSource} {records : List Record} :
    read checks source = .ok records ↔
      ∃ bytes, source = .memory bytes ∧ decode checks bytes = .ok records := by
  constructor
  · intro h
    cases source with
    | error cause => cases h
    | ok stream =>
      obtain ⟨bytes, fault⟩ := stream
      cases fault with
      | none => exact ⟨bytes, rfl, h⟩
      | some cause => cases (read_of_fault checks bytes cause).symm.trans h
  · rintro ⟨bytes, rfl, h⟩
    exact h

/-- A trace in which every stored total is the sum of the two counts behind it, stuck at the largest
word. -/
def retotalled (bytes : List UInt8) : List UInt8 :=
  bytes.mapIdx fun i b =>
    let start := 32 * (i / 32)
    if 8 ≤ i % 32 ∧ i % 32 < 16 then
      byteOf (min (numberAt bytes (start + 16) + numberAt bytes (start + 24)) Count.limit)
        (i % 32 - 8)
    else b

/-- A written trace has each record at its place. -/
theorem recordAt_encode {records : List Record} {k : Nat} {r : Record}
    (h : records[k]? = some r) : recordAt (encode records) k = r := by
  obtain ⟨hk, rfl⟩ := List.getElem?_eq_some_iff.mp h
  have hsplit : encode records = encode (records.take k) ++ encode (records.drop k) := by
    rw [encode, encode, encode, ← List.flatMap_append, List.take_append_drop]
  have hfront : (encode (records.take k)).length = 32 * k := by
    rw [length_encode, List.length_take_of_le hk.le]
  have hrest : (encode records).drop (32 * k) =
      recordBytes records[k] ++ encode (records.drop (k + 1)) := by
    rw [hsplit, List.drop_left' hfront, List.drop_eq_getElem_cons hk]
    rfl
  have hplace := recordAt_drop (encode records) k 0
  rw [hrest, recordAt_recordBytes, Nat.add_zero] at hplace
  exact hplace.symm

/-- The bytes of the record at a place, written again, are those of the trace but for the total. -/
private theorem getElem?_recordBytes_recordAt {bytes : List UInt8} {k i : Nat} (hi : i < 32)
    (hk : 32 * k + 32 ≤ bytes.length) :
    (recordBytes (recordAt bytes k))[i]? = (retotalled bytes)[32 * k + i]? := by
  have hdiv : (32 * k + i) / 32 = k := by omega
  have hmod : (32 * k + i) % 32 = i := by omega
  have hword : ∀ place, (UInt64.ofNat (numberAt bytes place)).toNat = numberAt bytes place :=
    fun place => UInt64.toNat_ofNat_of_lt' (numberAt_lt bytes place)
  have hsame : ∀ start, start % 8 = 0 → start ≤ i → i < start + 8 →
      byteOf (UInt64.ofNat (numberAt bytes (32 * k + start))).toNat (i % 8) = bytes[32 * k + i] := by
    intro start hstart hle hlt
    have hplace : 32 * k + start + i % 8 = 32 * k + i := by omega
    rw [hword, byteOf_numberAt (by omega) (by omega)]
    simp only [hplace]
  rw [getElem?_recordBytes _ hi, retotalled, List.getElem?_mapIdx,
    List.getElem?_eq_getElem (by omega), Option.map_some, Option.some.injEq]
  simp only [hdiv, hmod]
  by_cases hid : i < 8
  · rw [if_pos hid, if_neg (by omega)]
    exact hsame 0 rfl (by omega) (by omega)
  by_cases htotal : i < 16
  · have hbyte : i % 8 = i - 8 := by omega
    rw [if_neg hid, if_pos htotal, if_pos (by omega), Record.total, Count.toNat_add, hbyte]
    simp only [recordAt, hword]
  by_cases hleft : i < 24
  · rw [if_neg hid, if_neg htotal, if_pos hleft, if_neg (by omega)]
    exact hsame 16 rfl (by omega) (by omega)
  · rw [if_neg hid, if_neg htotal, if_neg hleft, if_neg (by omega)]
    exact hsame 24 rfl (by omega) (by omega)

/-- Records that were read off their places are written as they stood there, but for the totals. -/
theorem encode_map_recordAt {bytes : List UInt8} {count : Nat} (h : bytes.length = 32 * count) :
    encode ((List.range count).map (recordAt bytes)) = retotalled bytes := by
  have hlength : (retotalled bytes).length = bytes.length := List.length_mapIdx
  apply List.ext_getElem?
  intro j
  have hj : j = 32 * (j / 32) + j % 32 := by omega
  rw [hj, getElem?_encode _ _ (by omega)]
  by_cases hin : j / 32 < count
  · rw [List.getElem?_map, List.getElem?_range hin]
    exact getElem?_recordBytes_recordAt (by omega) (by omega)
  · rw [List.getElem?_eq_none (by simpa using hin), List.getElem?_eq_none (by omega)]
    rfl

/-- What was written for the checks is read back, also where the counts of a record add up to more
than a word; and what is read from a trace is written back as the trace was, but for the stored
totals. -/
theorem decode_encode_retotalled (checks : List Check) :
    (∀ records : List Record, records.map Record.id = checks.map Check.id →
      decode checks (encode records) = .ok records) ∧
    ∀ (bytes : List UInt8) (records : List Record), decode checks bytes = .ok records →
      encode records = retotalled bytes := by
  constructor
  · intro records hids
    have hlength : records.length = checks.length := by simpa using congrArg List.length hids
    have hbelong : Belong checks (encode records) checks.length := by
      intro k c hk hc
      have hr := List.getElem?_eq_getElem (hlength.symm ▸ hk)
      have hid : (records.map Record.id)[k]? = (checks.map Check.id)[k]? := by rw [hids]
      rw [recordAt_encode hr]
      simpa [hr, hc] using hid
    have hread : (List.range checks.length).map (recordAt (encode records)) = records := by
      apply List.ext_getElem
      · simp [hlength]
      · intro k _ hk
        rw [List.getElem_map, List.getElem_range]
        exact recordAt_encode (List.getElem?_eq_getElem hk)
    have hreads := Reads.records (by rw [length_encode, hlength]) hbelong
    rw [hread] at hreads
    exact hreads.decode_eq
  · intro bytes records h
    have hreads := reads_decode checks bytes
    rw [h] at hreads
    cases hreads with
    | records hlength _ => exact encode_map_recordAt hlength

/-- The first check ran more often than a word can tell. -/
def overcounted : List Record :=
  [{ id := ⟨0xFFFFFFFFFFFFFFFF⟩, left := 0xFFFFFFFFFFFFFFFF, right := 3 },
    { id := ⟨258⟩, left := 2, right := 256 }]

/-- The checks of these records. -/
def overcountedChecks : List Check :=
  [{ id := ⟨0xFFFFFFFFFFFFFFFF⟩, branch := ⟨0⟩, origin := .user },
    { id := ⟨258⟩, branch := ⟨1⟩, origin := .sanitizer, kind := .address }]

/-- The records are read back, also from a trace with wrong totals stored, and writing them again
puts the totals right. -/
theorem overcounted_retotalled :
    overcounted.map Record.id = overcountedChecks.map Check.id ∧
    decode overcountedChecks (encode overcounted) = .ok overcounted ∧
    decode overcountedChecks (((encode overcounted).set 8 0).set 40 7) = .ok overcounted ∧
    encode overcounted = retotalled (((encode overcounted).set 8 0).set 40 7) := by
  have hids : overcounted.map Record.id = overcountedChecks.map Check.id := rfl
  have hwrong : decode overcountedChecks (((encode overcounted).set 8 0).set 40 7) =
      .ok overcounted := by rfl
  exact ⟨hids, (decode_encode_retotalled overcountedChecks).1 overcounted hids, hwrong,
    (decode_encode_retotalled overcountedChecks).2 _ _ hwrong⟩

end Trace

end GuardElision
