import GuardElision.Trace.Bytes
import Mathlib.Data.Nat.Digits.Defs

/-!
# Where the words of a trace stand

Record `k` of a trace takes the bytes from `32 * k` on: eight for the number of its check, eight for
a total, and eight for each of the two counts. Taking a record off the front of a trace succeeds as
soon as 32 bytes are there, and what is taken is the record at place 0; the record at any place of
what is left is the next one of the whole trace. Writing puts the bytes of a word where reading looks
for them.
-/

namespace GuardElision

namespace Trace

/-- The number that the eight bytes from a place on stand for, the least significant one first. -/
def numberAt (bytes : List UInt8) (place : Nat) : Nat :=
  Nat.ofDigits 256 (((bytes.drop place).take 8).map UInt8.toNat)

/-- The byte of a number at a place; place 0 is the least significant one. -/
def byteOf (n i : Nat) : UInt8 := .ofNat (n / 256 ^ i % 256)

/-- The record at a place of a trace, whatever total is stored for it. -/
def recordAt (bytes : List UInt8) (k : Nat) : Record :=
  { id := ⟨.ofNat (numberAt bytes (32 * k))⟩
    left := .ofNat (numberAt bytes (32 * k + 16))
    right := .ofNat (numberAt bytes (32 * k + 24)) }

private theorem digits_lt (bytes : List UInt8) : ∀ digit ∈ bytes.map UInt8.toNat, digit < 256 := by
  intro digit hdigit
  obtain ⟨b, _, rfl⟩ := List.mem_map.mp hdigit
  exact b.toNat_lt

theorem numberAt_lt (bytes : List UInt8) (place : Nat) : numberAt bytes place < 2 ^ 64 := by
  have hlt := Nat.ofDigits_lt_base_pow_length (by decide) (digits_lt ((bytes.drop place).take 8))
  have hlength : (((bytes.drop place).take 8).map UInt8.toNat).length ≤ 8 := by simp
  calc numberAt bytes place
    _ < 256 ^ (((bytes.drop place).take 8).map UInt8.toNat).length := hlt
    _ ≤ 256 ^ 8 := Nat.pow_le_pow_right (by decide) hlength
    _ = 2 ^ 64 := by decide

/-- Words are read alike from a trace and from what is left of it, at the shifted place. -/
theorem numberAt_drop (bytes : List UInt8) (n place : Nat) :
    numberAt (bytes.drop n) place = numberAt bytes (n + place) := by
  rw [numberAt, numberAt, List.drop_drop]

theorem recordAt_drop (bytes : List UInt8) (n k : Nat) :
    recordAt (bytes.drop (32 * n)) k = recordAt bytes (n + k) := by
  simp only [recordAt, numberAt_drop, Nat.mul_add, Nat.add_assoc]

private theorem byteOf_ofDigits {bytes : List UInt8} {i : Nat} (hi : i < bytes.length) :
    byteOf (Nat.ofDigits 256 (bytes.map UInt8.toNat)) i = bytes[i] := by
  have hdrop : (bytes.map UInt8.toNat).drop i =
      bytes[i].toNat :: (bytes.drop (i + 1)).map UInt8.toNat := by
    rw [← List.map_drop, List.drop_eq_getElem_cons hi, List.map_cons]
  rw [byteOf, Nat.ofDigits_div_pow_eq_ofDigits_drop i (by decide) _ (digits_lt bytes), hdrop,
    Nat.ofDigits_cons, Nat.add_mul_mod_self_left, Nat.mod_eq_of_lt bytes[i].toNat_lt,
    UInt8.ofNat_toNat]

/-- The bytes of the number at a place are the bytes from that place on. -/
theorem byteOf_numberAt {bytes : List UInt8} {place i : Nat} (hi : i < 8)
    (hlength : place + i < bytes.length) :
    byteOf (numberAt bytes place) i = bytes[place + i] := by
  have hword : i < ((bytes.drop place).take 8).length := by
    rw [List.length_take, List.length_drop]
    omega
  rw [numberAt, byteOf_ofDigits hword, List.getElem_take, List.getElem_drop]

private theorem wordOf_eq (bytes : List UInt8) :
    wordOf bytes = .ofNat (Nat.ofDigits 256 (bytes.map UInt8.toNat)) := by
  rw [wordOf, Nat.ofDigits_eq_foldr, List.foldr_map]
  rfl

/-- A word is taken off a trace when its eight bytes are there. -/
private theorem takeWord?_drop (bytes : List UInt8) (place : Nat) :
    takeWord? (bytes.drop place) =
      if place + 8 ≤ bytes.length then
        some (.ofNat (numberAt bytes place), bytes.drop (place + 8))
      else none := by
  have hfront : ∀ rest : List UInt8, takeWord? rest =
      if 8 ≤ rest.length then some (.ofNat (numberAt rest 0), rest.drop 8) else none := by
    intro rest
    rw [takeWord?.eq_def]
    split
    · rw [if_pos (by simp), wordOf_eq]
      rfl
    · next hshort =>
      refine (if_neg fun hlong => ?_).symm
      match rest, hlong with
      | b0 :: b1 :: b2 :: b3 :: b4 :: b5 :: b6 :: b7 :: tail, _ =>
        exact hshort b0 b1 b2 b3 b4 b5 b6 b7 tail rfl
  rw [hfront, List.length_drop, numberAt_drop, List.drop_drop, Nat.add_zero]
  exact if_congr (by omega) rfl rfl

/-- A record is taken off the front of a trace when its 32 bytes are there. -/
theorem takeRecord?_eq (bytes : List UInt8) :
    takeRecord? bytes =
      if 32 ≤ bytes.length then some (recordAt bytes 0, bytes.drop 32) else none := by
  have hbind : ∀ {α β : Type} (c : Prop) [Decidable c] (a : α) (f : α → Option β),
      (if c then some a else none).bind f = if c then f a else none := by
    intro α β c _ a f
    split <;> rfl
  have hid := takeWord?_drop bytes 0
  rw [List.drop_zero] at hid
  simp only [takeRecord?, hid, takeWord?_drop, Option.bind_eq_bind, hbind]
  -- the last word ends where the record ends, so its test decides all four
  split_ifs <;> first | rfl | omega

@[simp] theorem length_wordBytes (w : UInt64) : (wordBytes w).length = 8 := by simp [wordBytes]

theorem getElem?_wordBytes (w : UInt64) {i : Nat} (hi : i < 8) :
    (wordBytes w)[i]? = some (byteOf w.toNat i) := by
  rw [wordBytes, List.getElem?_map, List.getElem?_range hi]
  rfl

private theorem ofDigits_bytes (n count : Nat) :
    Nat.ofDigits 256 ((List.range count).map fun i => (byteOf n i).toNat) = n % 256 ^ count := by
  have hbyte : ∀ i, (byteOf n i).toNat = n / 256 ^ i % 256 :=
    fun i => UInt8.toNat_ofNat_of_lt' (Nat.mod_lt _ (by decide))
  induction count with
  | zero => simp [Nat.mod_one]
  | succ count ih =>
    rw [List.range_succ, List.map_append, Nat.ofDigits_append, ih, List.length_map,
      List.length_range, List.map_singleton, Nat.ofDigits_singleton, hbyte, Nat.mod_pow_succ]

/-- A word reads back as it was written. -/
theorem numberAt_wordBytes (w : UInt64) (rest : List UInt8) :
    numberAt (wordBytes w ++ rest) 0 = w.toNat := by
  have hbytes : (wordBytes w).map UInt8.toNat =
      (List.range 8).map fun i => (byteOf w.toNat i).toNat := by
    rw [wordBytes, List.map_map]
    rfl
  rw [numberAt, List.drop_zero, List.take_left' (length_wordBytes w), hbytes, ofDigits_bytes]
  exact Nat.mod_eq_of_lt w.toNat_lt

/-- Words behind a word are read as if they stood alone. -/
private theorem numberAt_behind_word (w : UInt64) (rest : List UInt8) (place : Nat) :
    numberAt (wordBytes w ++ rest) (8 + place) = numberAt rest place := by
  rw [← numberAt_drop, List.drop_left' (length_wordBytes w)]

@[simp] theorem length_recordBytes (r : Record) : (recordBytes r).length = 32 := by
  simp [recordBytes]

/-- A record reads back as it was written. -/
theorem recordAt_recordBytes (r : Record) (rest : List UInt8) :
    recordAt (recordBytes r ++ rest) 0 = r := by
  have hid : numberAt (recordBytes r ++ rest) 0 = r.id.number.toNat := by
    simp only [recordBytes, List.append_assoc, numberAt_wordBytes]
  have hleft : numberAt (recordBytes r ++ rest) 16 = r.left.toNat := by
    simp only [recordBytes, List.append_assoc]
    rw [numberAt_behind_word _ _ 8, numberAt_behind_word _ _ 0, numberAt_wordBytes]
  have hright : numberAt (recordBytes r ++ rest) 24 = r.right.toNat := by
    simp only [recordBytes, List.append_assoc]
    rw [numberAt_behind_word _ _ 16, numberAt_behind_word _ _ 8, numberAt_behind_word _ _ 0,
      numberAt_wordBytes]
  simp only [recordAt, Nat.mul_zero, Nat.zero_add, hid, hleft, hright, UInt64.ofNat_toNat]

/-- The bytes of a written record: those of its number, of its total and of its two counts. -/
theorem getElem?_recordBytes (r : Record) {i : Nat} (hi : i < 32) :
    (recordBytes r)[i]? = some (byteOf
      (if i < 8 then r.id.number else if i < 16 then r.total else if i < 24 then r.left
        else r.right).toNat (i % 8)) := by
  have hword : ∀ (w : UInt64) (start : Nat), start % 8 = 0 → start ≤ i → i < start + 8 →
      (wordBytes w)[i - start]? = some (byteOf w.toNat (i % 8)) := by
    intro w start hstart hle hlt
    rw [getElem?_wordBytes w (by omega)]
    congr 2
    omega
  simp only [recordBytes, List.getElem?_append, List.length_append, length_wordBytes]
  by_cases hid : i < 8
  · rw [if_pos (by omega), if_pos (by omega), if_pos hid, if_pos hid]
    exact hword r.id.number 0 rfl (by omega) (by omega)
  by_cases htotal : i < 16
  · rw [if_pos (by omega), if_pos htotal, if_neg hid, if_neg hid, if_pos htotal]
    exact hword r.total 8 rfl (by omega) (by omega)
  by_cases hleft : i < 24
  · rw [if_pos hleft, if_neg htotal, if_neg hid, if_neg htotal, if_pos hleft]
    exact hword r.left 16 rfl (by omega) (by omega)
  · rw [if_neg hleft, if_neg hid, if_neg htotal, if_neg hleft]
    exact hword r.right 24 rfl (by omega) (by omega)

/-- The bytes of a record stand at its place in a written trace. -/
theorem getElem?_encode (records : List Record) (k : Nat) {i : Nat} (hi : i < 32) :
    (encode records)[32 * k + i]? = records[k]?.bind fun r => (recordBytes r)[i]? := by
  induction records generalizing k with
  | nil => simp [encode]
  | cons r rest ih =>
    have hcons : encode (r :: rest) = recordBytes r ++ encode rest := List.flatMap_cons
    cases k with
    | zero =>
      rw [hcons, List.getElem?_append_left (by simpa using hi)]
      simp
    | succ k =>
      have hplace : 32 * (k + 1) + i - 32 = 32 * k + i := by omega
      rw [hcons, List.getElem?_append_right (by rw [length_recordBytes]; omega),
        length_recordBytes, hplace, ih]
      rfl

@[simp] theorem length_encode (records : List Record) :
    (encode records).length = 32 * records.length := by
  simp [encode, List.length_flatMap, List.map_const', Nat.mul_comm]

end Trace

end GuardElision
