import GuardElision.Program.Identifier

/-!
# Run-time checks

A check is a two-way branch that was inserted by a sanitizer or written by the user.
When the check passes, the branch leaves through its regular exit.
-/

namespace GuardElision

/-- Who put a check into the program. -/
inductive Origin where
  | sanitizer
  | user
  deriving DecidableEq, Repr, Inhabited

/-- What a check guards. -/
inductive GuardKind where
  /-- A memory access; the address is what matters. -/
  | address
  /-- Any other condition. -/
  | generic
  deriving DecidableEq, Repr, Inhabited

/-- The successor that a passing check continues in. -/
inductive RegularExit where
  | left
  | right
  /-- The classifier cannot tell. -/
  | unknown
  deriving DecidableEq, Repr, Inhabited

/-- A run-time check. -/
structure Check where
  id : CheckId
  /-- The branch node that performs the check. -/
  branch : NodeId
  origin : Origin
  kind : GuardKind := .generic
  deriving DecidableEq, Repr, Inhabited

end GuardElision
