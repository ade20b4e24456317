import GuardElision.Exchange.Check
import GuardElision.Json.Reader
import GuardElision.Run.Classifier

/-!
# Classifiers as JSON

The exchange form of a classifier. Cones and exits are objects whose names are check
numbers; every field may be missing.
-/

namespace GuardElision

/-- An object from check numbers. -/
def Json.ofCheckMap {α : Type} (encode : α → Json) (m : SortedMap CheckId α) : Json :=
  .object (m.entries.map fun (id, value) => (toString id.number.toNat, encode value))

/-- A map from the numbers that name the members of an object. -/
def Json.checkMap? {α : Type} (decode : Json → Option α) (j : Json) :
    Option (SortedMap CheckId α) := do
  let members ← j.wordMap? decode
  return .ofList (members.map fun (n, value) => (⟨n⟩, value))

/-- How a classifier is written as JSON. -/
def Classifier.toJson (k : Classifier) : Json :=
  .object [("sanitizer", .ofList Check.toJson k.sanitizer), ("user", .ofList Check.toJson k.user),
    ("cones", .ofCheckMap (.ofList NodeId.toJson) k.cones),
    ("successors", .ofCheckMap RegularExit.toJson k.exits)]

/-- Read a classifier from JSON. -/
def Classifier.ofJson? (j : Json) : Option Classifier := do
  let f ← j.fields? ["sanitizer", "user", "cones", "successors"]
  return {
    sanitizer := ← f.defaulted "sanitizer" [] (Json.list? Check.ofJson?)
    user := ← f.defaulted "user" [] (Json.list? Check.ofJson?)
    cones := ← f.defaulted "cones" .empty (Json.checkMap? (Json.list? NodeId.ofJson?))
    exits := ← f.defaulted "successors" .empty (Json.checkMap? RegularExit.ofJson?) }

/-- The classifier that a text describes. -/
def Classifier.parse? (text : String) : Option Classifier :=
  (Json.draft? text).bind Classifier.ofJson?

end GuardElision
