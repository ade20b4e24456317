/-!
# Precision levels

How much a run is willing to believe when it calls two checks the same. The two lower levels
compare the shapes of conditions, the third compares what conditions depend on, and the
highest takes equal execution counts as proof.
-/

namespace GuardElision

/-- How two checks are compared, from the most careful to the most daring. -/
inductive Level where
  | l0
  | l1
  | l2
  | l3
  deriving DecidableEq, Repr

namespace Level

/-- The level of a run that asks for none. -/
def standard : Level := .l2

instance : Inhabited Level := ⟨standard⟩

/-- The name of a level. -/
def name : Level → String
  | .l0 => "L0"
  | .l1 => "L1"
  | .l2 => "L2"
  | .l3 => "L3"

/-- The level of a name, in either case. -/
def ofName? (name : String) : Option Level :=
  match name.toLower with
  | "l0" => some .l0
  | "l1" => some .l1
  | "l2" => some .l2
  | "l3" => some .l3
  | _ => none

/-- Whether only the shapes of conditions are compared. -/
def isShallow : Level → Bool
  | .l0 | .l1 => true
  | .l2 | .l3 => false

/-- Whether guards of induction variables are recognised. -/
def usesInduction : Level → Bool
  | .l0 => false
  | .l1 | .l2 | .l3 => true

/-- Whether equal counts are proof enough. -/
def trustsCounts : Level → Bool
  | .l3 => true
  | .l0 | .l1 | .l2 => false

end Level

end GuardElision
