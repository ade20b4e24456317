import GuardElision.Check
import GuardElision.Count

/-!
# Coverage records

A coverage run counts, for every check, how often its branch went left and how often right.
-/

namespace GuardElision

/-- How often one check went either way. -/
structure Record where
  id : CheckId
  left : Count
  right : Count
  deriving DecidableEq, Repr, Inhabited

namespace Record

/-- How often the check ran. -/
def total (r : Record) : Count := Count.add r.left r.right

/-- Whether two counts are those of the record, in either order. -/
def sameSplit (r : Record) (left right : Count) : Bool :=
  (r.left == left && r.right == right) || (r.left == right && r.right == left)

end Record

end GuardElision
