import GuardElision.Ordered.Ranked

/-!
# Sorted maps

A finite map kept as a list of entries in strictly ascending rank of their keys. The
order is part of the type, so whatever is listed from such a map comes by ascending key,
and `find?_insert` is all that a reader of the map has to know about writing to it.
-/

namespace GuardElision

/-- Whether entries stand in strictly ascending order of their keys. -/
def Ascending {κ α : Type} [Ranked κ] (entries : List (κ × α)) : Prop :=
  entries.Pairwise fun a b => rank a.1 < rank b.1

/-- A finite map whose entries stand in ascending order of their keys. -/
structure SortedMap (κ : Type) [Ranked κ] (α : Type) where
  entries : List (κ × α)
  ascending : Ascending entries

namespace SortedMap

variable {κ α : Type} [Ranked κ]

/-- The map without entries. -/
def empty : SortedMap κ α := ⟨[], List.Pairwise.nil⟩

instance : Inhabited (SortedMap κ α) := ⟨empty⟩

/-- Put an entry in its place among sorted ones; an entry with its key is replaced. -/
def put (key : κ) (value : α) : List (κ × α) → List (κ × α)
  | [] => [(key, value)]
  | e :: rest =>
    if rank key < rank e.1 then (key, value) :: e :: rest
    else if rank key = rank e.1 then (key, value) :: rest
    else e :: put key value rest

/-- The value stored under a key. -/
def find? (m : SortedMap κ α) (key : κ) : Option α :=
  (m.entries.find? fun e => rank e.1 == rank key).map (·.2)

/-- Whether a key has a value. -/
def contains (m : SortedMap κ α) (key : κ) : Bool := (m.find? key).isSome

private theorem mem_put {key : κ} {value : α} {entries : List (κ × α)} {e : κ × α}
    (h : e ∈ put key value entries) : e = (key, value) ∨ e ∈ entries := by
  induction entries with
  | nil => simpa [put] using h
  | cons a rest ih =>
    rw [put] at h
    split at h
    · simpa using h
    · split at h
      · rcases List.mem_cons.mp h with h | h
        · exact .inl h
        · exact .inr (List.mem_cons_of_mem _ h)
      · rcases List.mem_cons.mp h with h | h
        · exact .inr (by simp [h])
        · rcases ih h with h | h
          · exact .inl h
          · exact .inr (List.mem_cons_of_mem _ h)

private theorem ascending_put (key : κ) (value : α) {entries : List (κ × α)}
    (h : Ascending entries) : Ascending (put key value entries) := by
  induction entries with
  | nil => simp [put, Ascending]
  | cons a rest ih =>
    have ⟨ha, hrest⟩ := List.pairwise_cons.mp h
    rw [put]
    split
    next hlt =>
      refine List.pairwise_cons.mpr ⟨fun e he => ?_, h⟩
      rcases List.mem_cons.mp he with rfl | he
      · exact hlt
      · exact Nat.lt_trans hlt (ha e he)
    next hge =>
      split
      next heq => exact List.pairwise_cons.mpr ⟨fun e he => by
        have := ha e he
        simp only
        omega, hrest⟩
      next hne =>
        refine List.pairwise_cons.mpr ⟨fun e he => ?_, ih hrest⟩
        rcases mem_put he with rfl | he
        · simp only
          omega
        · exact ha e he

/-- The map with a value stored under a key, whatever was stored there before. -/
def insert (m : SortedMap κ α) (key : κ) (value : α) : SortedMap κ α :=
  ⟨put key value m.entries, ascending_put key value m.ascending⟩

/-- The map with a value stored under a key, unless the key has a value already. -/
def insertNew (m : SortedMap κ α) (key : κ) (value : α) : SortedMap κ α :=
  if m.contains key then m else m.insert key value

/-- The map of a list of entries; of several with one key the last counts. -/
def ofList (entries : List (κ × α)) : SortedMap κ α :=
  entries.foldl (fun m e => m.insert e.1 e.2) empty

/-- The keys, ascending. -/
def keys (m : SortedMap κ α) : List κ := m.entries.map (·.1)

/-- The values, by ascending key. -/
def values (m : SortedMap κ α) : List α := m.entries.map (·.2)

/-- The number of entries. -/
def size (m : SortedMap κ α) : Nat := m.entries.length

/-- Whether there is no entry. -/
def isEmpty (m : SortedMap κ α) : Bool := m.entries.isEmpty

@[simp] theorem find?_empty (key : κ) : (empty : SortedMap κ α).find? key = none := rfl

private theorem find?_put [DecidableEq κ] (key other : κ) (value : α) (entries : List (κ × α))
    (h : Ascending entries) :
    (put key value entries).find? (fun e => rank e.1 == rank other) =
      if other = key then some (key, value)
      else entries.find? (fun e => rank e.1 == rank other) := by
  induction entries with
  | nil =>
    by_cases ho : other = key
    · simp [put, ho]
    · have : rank key ≠ rank other := fun hr => ho (rank_injective _ _ hr).symm
      simp [put, ho, this]
  | cons a rest ih =>
    have ⟨ha, hrest⟩ := List.pairwise_cons.mp h
    by_cases ho : other = key
    · subst ho
      rw [put]
      split
      · simp
      · split
        · simp
        · next h1 h2 =>
          have : ¬ rank a.1 = rank other := fun hr => h2 hr.symm
          simp [this, ih hrest]
    · have hk : ¬ rank key = rank other := fun hr => ho (rank_injective _ _ hr).symm
      rw [put]
      split
      · simp [List.find?_cons, hk]
      · split
        next h2 =>
          have : ¬ rank a.1 = rank other := fun hr => hk (h2.trans hr)
          simp [hk, this]
        next => simp [List.find?_cons, ih hrest, ho]

/-- After a write, the written key has the new value and the others keep theirs. -/
theorem find?_insert [DecidableEq κ] (m : SortedMap κ α) (key other : κ) (value : α) :
    (m.insert key value).find? other = if other = key then some value else m.find? other := by
  simp only [find?, insert, find?_put key other value m.entries m.ascending]
  by_cases h : other = key <;> simp [h]

end SortedMap

end GuardElision
