/-!
# Identifiers

Nodes, blocks, procedures and externals are named by 32-bit positions in the arenas
of a program; checks carry 64-bit numbers of their own. The kinds are kept apart as
types, and each has the sigil under which messages show it.
-/

namespace GuardElision

/-- A position in a program's list of operation nodes. -/
structure NodeId where
  index : UInt32
  deriving DecidableEq, Repr, Inhabited

/-- A position in a program's list of basic blocks. -/
structure BlockId where
  index : UInt32
  deriving DecidableEq, Repr, Inhabited

/-- A position in a program's list of procedures. -/
structure ProcedureId where
  index : UInt32
  deriving DecidableEq, Repr, Inhabited

/-- A position in a program's list of external names. -/
structure ExternalId where
  index : UInt32
  deriving DecidableEq, Repr, Inhabited

/-- The number of a run-time check. -/
structure CheckId where
  number : UInt64
  deriving DecidableEq, Repr, Inhabited

/-- A node is shown with a percent sign. -/
def NodeId.display (id : NodeId) : String := "%" ++ toString id.index.toNat

/-- A block is shown with the letters `bb`. -/
def BlockId.display (id : BlockId) : String := "bb" ++ toString id.index.toNat

/-- A procedure is shown with the letters `fn`. -/
def ProcedureId.display (id : ProcedureId) : String := "fn" ++ toString id.index.toNat

/-- An external is shown with a dollar sign. -/
def ExternalId.display (id : ExternalId) : String := "$" ++ toString id.index.toNat

/-- A check is shown with a number sign. -/
def CheckId.display (id : CheckId) : String := "#" ++ toString id.number.toNat

/-- Nodes are ordered by position. -/
instance : LT NodeId := ⟨fun a b => a.index < b.index⟩

instance (a b : NodeId) : Decidable (a < b) := inferInstanceAs (Decidable (a.index < b.index))

/-- Externals are ordered by position. -/
instance : LT ExternalId := ⟨fun a b => a.index < b.index⟩

instance (a b : ExternalId) : Decidable (a < b) :=
  inferInstanceAs (Decidable (a.index < b.index))

/-- Checks are ordered by number. -/
instance : LT CheckId := ⟨fun a b => a.number < b.number⟩

instance (a b : CheckId) : Decidable (a < b) := inferInstanceAs (Decidable (a.number < b.number))

end GuardElision
