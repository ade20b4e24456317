import GuardElision.Ordered.Ranked

/-!
# Fingerprints

A fingerprint is a finite set of leaves: the operations and externals at which a backward
slice stopped. The leaves are listed in one fixed order, operations by position and then
externals by position, so that equal sets are equal values and every traversal of a
fingerprint is determined by the set alone.
-/

namespace GuardElision

/-- Where a backward slice ends. Constants are never leaves. -/
inductive Leaf where
  | node (id : NodeId)
  | external (id : ExternalId)
  deriving DecidableEq, Repr, Inhabited

/-- Operations come before externals, each kind by position. -/
instance : Ranked Leaf where
  rank
    | .node id => id.index.toNat
    | .external id => UInt32.size + id.index.toNat
  rank_injective a b h := by
    rcases a with ⟨⟨a⟩⟩ | ⟨⟨a⟩⟩ <;> rcases b with ⟨⟨b⟩⟩ | ⟨⟨b⟩⟩ <;>
      simp only [Leaf.node.injEq, Leaf.external.injEq, NodeId.mk.injEq, ExternalId.mk.injEq,
        reduceCtorEq] at h ⊢
    · exact UInt32.toNat_inj.mp h
    · have := a.toNat_lt_size
      omega
    · have := b.toNat_lt_size
      omega
    · exact UInt32.toNat_inj.mp (by omega)

/-- The node a leaf is. -/
def Leaf.node? : Leaf → Option NodeId
  | .node id => some id
  | .external _ => none

/-- A finite set of leaves, listed in ascending rank. -/
structure Fingerprint where
  leaves : List Leaf
  ascending : leaves.Pairwise fun a b => rank a < rank b
  deriving DecidableEq

namespace Fingerprint

/-- The set without leaves. -/
def empty : Fingerprint := ⟨[], List.Pairwise.nil⟩

instance : Inhabited Fingerprint := ⟨empty⟩

/-- Put a leaf in its place among sorted ones. -/
def place (leaf : Leaf) : List Leaf → List Leaf
  | [] => [leaf]
  | a :: rest =>
    if rank leaf < rank a then leaf :: a :: rest
    else if leaf = a then a :: rest
    else a :: place leaf rest

/-- Placing adds the leaf and keeps the others. -/
theorem mem_place {leaf other : Leaf} {leaves : List Leaf} :
    other ∈ place leaf leaves ↔ other = leaf ∨ other ∈ leaves := by
  induction leaves with
  | nil => simp [place]
  | cons a rest ih =>
    rw [place]
    split
    · simp
    · split
      next h => simp [h]
      next => rw [List.mem_cons, ih, List.mem_cons]; exact or_left_comm

private theorem ascending_place (leaf : Leaf) {leaves : List Leaf}
    (h : leaves.Pairwise fun a b => rank a < rank b) :
    (place leaf leaves).Pairwise fun a b => rank a < rank b := by
  induction leaves with
  | nil => simp [place]
  | cons a rest ih =>
    have ⟨ha, hrest⟩ := List.pairwise_cons.mp h
    rw [place]
    split
    next hlt =>
      refine List.pairwise_cons.mpr ⟨fun b hb => ?_, h⟩
      rcases List.mem_cons.mp hb with rfl | hb
      · exact hlt
      · exact Nat.lt_trans hlt (ha b hb)
    next hge =>
      split
      next => exact h
      next hne =>
        refine List.pairwise_cons.mpr ⟨fun b hb => ?_, ih hrest⟩
        rcases mem_place.mp hb with rfl | hb
        · have : rank b ≠ rank a := fun hr => hne (rank_injective _ _ hr)
          omega
        · exact ha b hb

/-- The set with one more leaf. -/
def insert (f : Fingerprint) (leaf : Leaf) : Fingerprint :=
  ⟨place leaf f.leaves, ascending_place leaf f.ascending⟩

instance : Membership Leaf Fingerprint := ⟨fun f leaf => leaf ∈ f.leaves⟩

instance (leaf : Leaf) (f : Fingerprint) : Decidable (leaf ∈ f) :=
  inferInstanceAs (Decidable (leaf ∈ f.leaves))

/-- The set with the leaves of a list added. -/
def insertAll (f : Fingerprint) (leaves : List Leaf) : Fingerprint := leaves.foldl insert f

/-- The set of the leaves in a list. -/
def ofList (leaves : List Leaf) : Fingerprint := empty.insertAll leaves

/-- The set of one leaf. -/
def singleton (leaf : Leaf) : Fingerprint := ofList [leaf]

/-- The leaves of either set. -/
def union (f g : Fingerprint) : Fingerprint := f.insertAll g.leaves

/-- Whether a leaf belongs to the set. -/
def contains (f : Fingerprint) (leaf : Leaf) : Bool := f.leaves.contains leaf

/-- The number of leaves. -/
def size (f : Fingerprint) : Nat := f.leaves.length

/-- Whether there is no leaf. -/
def isEmpty (f : Fingerprint) : Bool := f.leaves.isEmpty

/-- The only leaf, if it is an operation. -/
def singleNode? (f : Fingerprint) : Option NodeId :=
  match f.leaves with
  | [leaf] => leaf.node?
  | _ => none

theorem mem_insert {f : Fingerprint} {leaf other : Leaf} :
    other ∈ f.insert leaf ↔ other = leaf ∨ other ∈ f :=
  mem_place

theorem mem_insertAll {f : Fingerprint} {leaves : List Leaf} {leaf : Leaf} :
    leaf ∈ f.insertAll leaves ↔ leaf ∈ leaves ∨ leaf ∈ f := by
  induction leaves generalizing f with
  | nil => simp [insertAll]
  | cons a rest ih =>
    have h : f.insertAll (a :: rest) = (f.insert a).insertAll rest := rfl
    rw [h, ih, mem_insert, List.mem_cons, or_left_comm, or_assoc]

@[simp] theorem mem_ofList {leaves : List Leaf} {leaf : Leaf} :
    leaf ∈ ofList leaves ↔ leaf ∈ leaves := by
  rw [ofList, mem_insertAll]
  exact ⟨fun h => h.resolve_right (List.not_mem_nil), .inl⟩

theorem mem_union {f g : Fingerprint} {leaf : Leaf} : leaf ∈ f.union g ↔ leaf ∈ g ∨ leaf ∈ f :=
  mem_insertAll

end Fingerprint

end GuardElision
