/-!
# Execution counts

Counts, costs and weights are 64-bit words. Their sums and products stick at the
largest word instead of wrapping, and a difference stops at zero: every operation
is the exact natural-number operation followed by one clamp.
-/

namespace GuardElision

/-- How often something ran, or what it cost, as one machine word. -/
abbrev Count := UInt64

namespace Count

/-- The largest natural number that one word holds. -/
def limit : Nat := 0xFFFFFFFFFFFFFFFF

/-- The word nearest to a natural number: itself, or the largest word. -/
def clamp (n : Nat) : Count := UInt64.ofNat (min n limit)

/-- The sum, stuck at the largest word. -/
def add (a b : Count) : Count := clamp (a.toNat + b.toNat)

/-- The product, stuck at the largest word. -/
def mul (a b : Count) : Count := clamp (a.toNat * b.toNat)

/-- The difference, stopped at zero. -/
def sub (a b : Count) : Count := UInt64.ofNat (a.toNat - b.toNat)

/-- The sum of a list from the left, stuck at the largest word. -/
def sum (counts : List Count) : Count := counts.foldl add 0

theorem toNat_le_limit (a : Count) : a.toNat ≤ limit := by
  have h := a.toNat_lt
  unfold limit
  omega

/-- Clamping keeps every value that fits and cuts the others at the limit. -/
@[simp] theorem toNat_clamp (n : Nat) : (clamp n).toNat = min n limit := by
  unfold clamp
  rw [UInt64.toNat_ofNat']
  apply Nat.mod_eq_of_lt
  have := Nat.min_le_right n limit
  unfold limit at *
  omega

@[simp] theorem toNat_add (a b : Count) : (add a b).toNat = min (a.toNat + b.toNat) limit := by
  simp [add]

@[simp] theorem toNat_mul (a b : Count) : (mul a b).toNat = min (a.toNat * b.toNat) limit := by
  simp [mul]

private theorem toNat_foldl_add (counts : List Count) (start : Count) :
    (counts.foldl add start).toNat =
      min (start.toNat + (counts.map (·.toNat)).foldr (· + ·) 0) limit := by
  induction counts generalizing start with
  | nil =>
    have := toNat_le_limit start
    simp
    omega
  | cons a rest ih =>
    rw [List.foldl_cons, ih, toNat_add, List.map_cons, List.foldr_cons]
    omega

/-- Clamping at every step of a sum is the same as clamping once at its end. -/
theorem toNat_sum (counts : List Count) :
    (sum counts).toNat = min ((counts.map (·.toNat)).foldr (· + ·) 0) limit := by
  simp [sum, toNat_foldl_add]

end Count

end GuardElision
