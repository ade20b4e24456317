import GuardElision.Check
import GuardElision.Ordered.Map
import GuardElision.Slice.Cone

/-!
# Classifying checks

A classifier lists the sanitizer and user checks of a program in a fixed order and knows
the regular exit of each. It may also know the dependency cone of a check; otherwise the
cone is what the check's branch is computed from.
-/

namespace GuardElision

/-- What is known about the checks of a program. -/
structure Classifier where
  sanitizer : List Check := []
  user : List Check := []
  cones : SortedMap CheckId (List NodeId) := .empty
  exits : SortedMap CheckId RegularExit := .empty

namespace Classifier

/-- The classifier with one more sanitizer check. -/
def addSanitizer (k : Classifier) (c : Check) (exit : RegularExit) : Classifier :=
  { k with sanitizer := k.sanitizer ++ [c], exits := k.exits.insert c.id exit }

/-- The classifier with one more user check. -/
def addUser (k : Classifier) (c : Check) : Classifier := { k with user := k.user ++ [c] }

/-- The classifier with the cone of a check set. -/
def setCone (k : Classifier) (id : CheckId) (cone : List NodeId) : Classifier :=
  { k with cones := k.cones.insert id cone }

/-- What a check depends on. -/
def coneOf (k : Classifier) (p : Program) (c : Check) : List NodeId :=
  match k.cones.find? c.id with
  | some cone => cone
  | none => p.operandCone c.branch

/-- The regular exit of a check. -/
def exitOf (k : Classifier) (c : Check) : RegularExit := (k.exits.find? c.id).getD .unknown

end Classifier

end GuardElision
