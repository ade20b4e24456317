/-!
# YAML documents

Settings are written as YAML. Only mappings and scalars occur in settings, so a document is
either. A scalar remembers its style and its tag: a plain scalar can stand for a number, a
truth value or nothing, and a tag can say that it does, or name a variant.
-/

namespace GuardElision

/-- A tag that says what a node is. -/
inductive Yaml.Tag where
  /-- A tag of the language itself, such as `null` or `int`. -/
  | core (name : String)
  /-- A tag of the application, behind its exclamation mark; a mark that stands alone is its
  own name. -/
  | custom (name : String)
  /-- Any other tag. -/
  | foreign
  deriving DecidableEq, Repr

/-- How a scalar is written. -/
inductive Yaml.Style where
  | plain
  | single
  | double
  | literal
  | folded
  deriving DecidableEq, Repr

/-- A YAML document. -/
inductive Yaml where
  | scalar (tag : Option Yaml.Tag) (style : Yaml.Style) (text : String)
  | mapping (entries : List (String × Yaml))
  deriving Repr, Inhabited

namespace Yaml

/-- A scalar that stands plainly, without a tag. -/
def plain (text : String) : Yaml := .scalar none .plain text

/-- What stands where nothing was written. -/
def nothing : Yaml := plain ""

end Yaml

end GuardElision
