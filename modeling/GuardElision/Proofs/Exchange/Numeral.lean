import GuardElision.Json.Decode
import GuardElision.Yaml.Resolve

/-!
# Numerals are read back

Members of JSON objects are named by numerals and YAML settings contain some. Both are written in
base ten with no zero in front, and both readers refuse such a zero; the readers of YAML look in
addition for a sign or for the mark of another base, which a numeral of this form never has.
-/

namespace GuardElision

/-- The digits of a positive number do not start with zero. -/
theorem toDigits_head_ne_zero {n : Nat} (h : n ≠ 0) :
    ∃ c rest, Nat.toDigits 10 n = c :: rest ∧ c ≠ '0' := by
  induction n using Nat.strongRecOn with
  | ind n ih =>
    rw [Nat.toDigits_eq_if (by decide)]
    split
    · exact ⟨n.digitChar, [], rfl, fun hc => h (Nat.digitChar_eq_zero.mp hc)⟩
    · obtain ⟨c, rest, hdigits, hc⟩ := ih (n / 10) (by omega) (by omega)
      exact ⟨c, rest ++ [(n % 10).digitChar], by rw [hdigits, List.cons_append], hc⟩

/-- The digits of a number are those of zero, or start with another digit. -/
theorem toDigits_cases (n : Nat) :
    Nat.toDigits 10 n = ['0'] ∨ ∃ c rest, Nat.toDigits 10 n = c :: rest ∧ c ≠ '0' := by
  by_cases h : n = 0
  · exact .inl (by rw [h, Nat.toDigits_zero])
  · exact .inr (toDigits_head_ne_zero h)

/-- The digits of a number denote it. -/
theorem foldl_toDigits (n : Nat) :
    (Nat.toDigits 10 n).foldl (fun n c => n * 10 + (c.toNat - '0'.toNat)) 0 = n := by
  have h : Nat.ofDigitChars 10 (Nat.toDigits 10 n) 0 = n := Nat.ofDigitChars_ten_toDigits
  rw [Nat.ofDigitChars_eq_foldl] at h
  simpa only [Nat.mul_comm] using h

theorem toList_toString (n : Nat) : (toString n).toList = Nat.toDigits 10 n := by
  rw [Nat.toString_eq_repr, Nat.toList_repr]

/-- The name of a member that was written for a word denotes it. -/
theorem Json.wordOfText?_toString (n : UInt64) : wordOfText? (toString n.toNat) = some n := by
  have hdigit : ∀ c ∈ Nat.toDigits 10 n.toNat, c.isDigit = true := fun _ =>
    Nat.isDigit_of_mem_toDigits (by decide) (by decide)
  have hform : ((Nat.toDigits 10 n.toNat).isEmpty ||
      (Nat.toDigits 10 n.toNat).any fun c => !c.isDigit) = false := by
    simpa using hdigit
  have hzero : ((Nat.toDigits 10 n.toNat).head? == some '0' &&
      (Nat.toDigits 10 n.toNat).length != 1) = false := by
    obtain h | ⟨c, rest, h, hc⟩ := toDigits_cases n.toNat
    · rw [h]
      rfl
    · simp [h, hc]
  simp only [wordOfText?, toList_toString, hform, hzero, foldl_toDigits, Bool.false_eq_true, if_false]
  rw [if_pos n.toNat_lt_size, UInt64.ofNat_toNat]

namespace Yaml

theorem digitOf?_ten {c : Char} (h : c.isDigit = true) :
    digitOf? 10 c = some (c.toNat - '0'.toNat) := by
  have hrange : '0' ≤ c ∧ c ≤ '9' := by simpa [Char.isDigit, Char.le_def] using h
  have hle : c.toNat ≤ '9'.toNat := Char.le_def.mp hrange.2
  have hlt : c.toNat - '0'.toNat < 10 := by
    simp only [Char.reduceToNat] at hle ⊢
    omega
  simp only [digitOf?, if_pos hrange, if_pos hlt]

/-- Digits in base ten denote their value. -/
theorem digitsOf?_ten {digits : List Char} (hne : digits ≠ [])
    (h : ∀ c ∈ digits, c.isDigit = true) :
    digitsOf? 10 digits = some (digits.foldl (fun n c => n * 10 + (c.toNat - '0'.toNat)) 0) := by
  rw [digitsOf?, if_neg (by simpa using hne)]
  clear hne
  generalize 0 = start
  induction digits generalizing start with
  | nil => rfl
  | cons c rest ih =>
    obtain ⟨hc, hrest⟩ := List.forall_mem_cons.mp h
    rw [List.foldlM_cons, digitOf?_ten hc, Option.map_some, List.foldl_cons]
    exact ih hrest _

/-- A scalar that was written for a number denotes it. -/
theorem naturalOf?_toString (n : Nat) : naturalOf? (toString n) = some n := by
  have hdigit : ∀ c ∈ Nat.toDigits 10 n, c.isDigit = true := fun _ =>
    Nat.isDigit_of_mem_toDigits (by decide) (by decide)
  have hvalue : digitsOf? 10 (Nat.toDigits 10 n) = some n := by
    rw [digitsOf?_ten Nat.toDigits_ne_nil hdigit, foldl_toDigits]
  rw [naturalOf?, toList_toString]
  obtain h | ⟨c, rest, h, hc⟩ := toDigits_cases n
  · rw [h] at hvalue ⊢
    simpa [magnitudeOf?, hasIdleZero] using hvalue
  · have hsign : ∀ d, d.isDigit = false → c ≠ d := fun d hd heq => by
      rw [h, heq] at hdigit
      simp [hd] at hdigit
    have hplus : c ≠ '+' := hsign '+' rfl
    have hminus : c ≠ '-' := hsign '-' rfl
    rw [h] at hvalue ⊢
    simpa [magnitudeOf?, hasIdleZero, hc, hplus, hminus] using hvalue

end Yaml

end GuardElision
