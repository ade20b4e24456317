import GuardElision.Count
import GuardElision.Ordered.Map

/-!
# The ledger of eliminated checks

The ledger records, for every eliminated check, in which phase and in favour of which other
check it was eliminated, and how often it ran. The first record of a check stands: later
ones are ignored.
-/

namespace GuardElision

/-- The phases of a run, in order. -/
inductive Phase where
  /-- A user check covers a sanitizer check, by coverage counts. -/
  | user
  /-- An earlier sanitizer check covers a later one, by coverage counts. -/
  | coverage
  /-- A check covers another one that it dominates or post-dominates. -/
  | dominance
  deriving DecidableEq, Repr, Inhabited

/-- The phases are ordered as they run. -/
def Phase.index : Phase → Nat
  | .user => 1
  | .coverage => 2
  | .dominance => 3

/-- Why a check was eliminated. -/
structure Reason where
  /-- How often the check ran. -/
  count : Count
  phase : Phase
  /-- The check that covers it. -/
  coverer : CheckId
  deriving DecidableEq, Repr, Inhabited

/-- The eliminated checks, by ascending number. -/
abbrev Ledger := SortedMap CheckId Reason

namespace Ledger

/-- Record an elimination, unless the check has one. -/
def mark (l : Ledger) (id : CheckId) (reason : Reason) : Ledger := l.insertNew id reason

/-- The reasons given up to and including a phase. -/
def reasonsThrough (l : Ledger) (phase : Phase) : List Reason :=
  l.values.filter fun r => r.phase.index ≤ phase.index

/-- How many checks were eliminated up to and including a phase. -/
def countThrough (l : Ledger) (phase : Phase) : Nat := (Ledger.reasonsThrough l phase).length

/-- How often the checks eliminated up to and including a phase ran. -/
def weightThrough (l : Ledger) (phase : Phase) : Count :=
  Count.sum ((Ledger.reasonsThrough l phase).map Reason.count)

end Ledger

/-- What a phase sees of the eliminated checks and does to them. -/
class Register (σ : Type) where
  contains : σ → CheckId → Bool
  /-- Record an elimination, unless the check has one. -/
  mark : σ → CheckId → Reason → σ

instance : Register Ledger where
  contains := SortedMap.contains
  mark := Ledger.mark

@[simp] theorem Ledger.register_contains (l : Ledger) (id : CheckId) :
    Register.contains l id = l.contains id := rfl

/-- A ledger with the number of the checks that were entered in it. -/
structure Tally where
  entered : Nat := 0
  ledger : Ledger

instance : Register Tally where
  contains t id := t.ledger.contains id
  mark t id reason :=
    if t.ledger.contains id then t
    else { entered := t.entered + 1, ledger := Ledger.mark t.ledger id reason }

end GuardElision
