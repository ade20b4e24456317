import GuardElision.Program.Identifier

/-!
# Ranks

Keys that are compared by a natural number. The rank determines the key, so that the
order by rank is a linear order and a list sorted by rank holds no key twice.
-/

namespace GuardElision

/-- A type whose elements are told apart and ordered by a natural number. -/
class Ranked (κ : Type) where
  rank : κ → Nat
  rank_injective : ∀ a b : κ, rank a = rank b → a = b

export Ranked (rank rank_injective)

instance : Ranked UInt64 where
  rank := UInt64.toNat
  rank_injective _ _ h := UInt64.toNat_inj.mp h

instance : Ranked NodeId where
  rank id := id.index.toNat
  rank_injective a b h := by
    cases a
    cases b
    simpa [UInt32.toNat_inj] using h

instance : Ranked CheckId where
  rank id := id.number.toNat
  rank_injective a b h := by
    cases a
    cases b
    simpa [UInt64.toNat_inj] using h

/-- The rank determines the key. -/
theorem rank_inj {κ : Type} [Ranked κ] {a b : κ} : rank a = rank b ↔ a = b :=
  ⟨rank_injective a b, fun h => h ▸ rfl⟩

end GuardElision
