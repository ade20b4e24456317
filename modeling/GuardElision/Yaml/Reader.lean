import GuardElision.Yaml.Tree

/-!
# Reading YAML

A text is marked, cut into tokens, read as a tree, and its aliases are resolved. A text with
several documents is refused, and one without a document stands for nothing.
-/

namespace GuardElision.Yaml

/-- The only document of a text. -/
def parse? (text : String) : Option Yaml := do
  let marks ← mark? text
  let tokens ← tokens? marks
  let tree ← Tree.ofTokens? tokens
  tree.toYaml?

end GuardElision.Yaml
