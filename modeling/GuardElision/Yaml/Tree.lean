import GuardElision.Yaml.Token

/-!
# Trees of nodes

The structure of a document as it is written: scalars and mappings, some of them anchored,
and aliases that stand for what is anchored elsewhere. `Tree.ofTokens?` reads the only
document of a text, and `Tree.toYaml?` puts what they stand for in the place of aliases.

Anchored nodes are kept in numbered slots. The slot of an anchor is the number of names in
use when it is set, so a name that is set again moves to a slot that the next new name takes
over; a slot keeps the last node that was put into it, and an alias means a slot.
-/

namespace GuardElision.Yaml

/-- A node as it is written, with the slot it is anchored in. -/
inductive Tree where
  | scalar (slot : Option Nat) (tag : Option Tag) (style : Style) (text : String)
  | mapping (slot : Option Nat) (entries : List (Tree × Tree))
  | alias (slot : Nat)

namespace Tree

/-- What stands where nothing was written. -/
def nothing : Tree := .scalar none none .plain ""

/-- The slot that each anchor's name means. -/
abbrev Names := List (String × Nat)

/-- Give a name a slot. -/
def Names.set (names : Names) (name : String) : Names :=
  (name, names.length) :: names.filter fun other => other.1 != name

/-- The anchor and the tag in front of a node, in either order, and the rest. -/
def readProperties : List Token → Option String × Option TagName × List Token
  | .anchor name :: .tag tag :: rest => (some name, some tag, rest)
  | .tag tag :: .anchor name :: rest => (some name, some tag, rest)
  | .anchor name :: rest => (some name, none, rest)
  | .tag tag :: rest => (none, some tag, rest)
  | rest => (none, none, rest)

/-- A node that was read. -/
structure Found where
  tree : Tree
  names : Names
  rest : List Token

/-- Whether no node starts at a token of a block mapping. -/
def endsBlockNode : List Token → Bool
  | .key :: _ | .value :: _ | .blockEnd :: _ => true
  | _ => false

/-- Whether no node starts at a token between braces. -/
def endsFlowNode : List Token → Bool
  | .comma :: _ | .braceClose :: _ => true
  | _ => false

mutual

/-- Read a node; a block mapping only where `block` allows it. -/
def readNode (handles : Handles) : (steps : Nat) → (block : Bool) → Names → List Token →
    Option Found
  | 0, _, _, _ => none
  | _, _, names, .alias name :: rest =>
    (names.lookup name).map fun slot => ⟨.alias slot, names, rest⟩
  | steps + 1, block, names, tokens =>
    let (anchor, written, rest) := readProperties tokens
    let slot := anchor.map fun _ => names.length
    let names := anchor.elim names names.set
    match written.mapM (·.resolve? handles) with
    | none => none
    | some tag =>
      match rest with
      | .scalar style text :: rest => some ⟨.scalar slot tag style text, names, rest⟩
      | .braceOpen :: rest => readFlowEntries handles steps slot true [] names rest
      | _ =>
        if block && rest.head? == some .blockStart then
          readBlockEntries handles steps slot [] names (rest.drop 1)
        else if anchor.isSome || tag.isSome then
          some ⟨.scalar slot tag .plain "", names, rest⟩
        else none

/-- Read the entries of a block mapping up to its end; the earlier ones come in reverse. -/
def readBlockEntries (handles : Handles) : (steps : Nat) → (slot : Option Nat) →
    List (Tree × Tree) → Names → List Token → Option Found
  | 0, _, _, _, _ => none
  | steps + 1, slot, done, names, tokens =>
    match tokens with
    | .blockEnd :: rest => some ⟨.mapping slot done.reverse, names, rest⟩
    | .key :: rest =>
      let key : Option Found :=
        if endsBlockNode rest then some ⟨nothing, names, rest⟩
        else readNode handles steps true names rest
      match key with
      | none => none
      | some key =>
        let value : Option Found :=
          match key.rest with
          | .value :: rest =>
            if endsBlockNode rest then some ⟨nothing, key.names, rest⟩
            else readNode handles steps true key.names rest
          | rest => some ⟨nothing, key.names, rest⟩
        match value with
        | none => none
        | some value =>
          readBlockEntries handles steps slot ((key.tree, value.tree) :: done) value.names value.rest
    | _ => none

/-- Read the entries of a mapping in braces up to its end; the earlier ones come in reverse,
and all but the first stand behind a comma. -/
def readFlowEntries (handles : Handles) : (steps : Nat) → (slot : Option Nat) →
    (first : Bool) → List (Tree × Tree) → Names → List Token → Option Found
  | 0, _, _, _, _, _ => none
  | steps + 1, slot, first, done, names, tokens =>
    let mapping (rest : List Token) : Option Found :=
      some ⟨.mapping slot done.reverse, names, rest⟩
    let entry :=
      match first, tokens with
      | true, tokens => some tokens
      | false, .comma :: rest => some rest
      | false, _ => none
    match tokens, entry with
    | .braceClose :: rest, _ => mapping rest
    | _, none => none
    | _, some (.braceClose :: rest) => mapping rest
    | _, some (.key :: rest) =>
      let key : Option Found :=
        if endsFlowNode rest || rest.head? == some .value then some ⟨nothing, names, rest⟩
        else readNode handles steps false names rest
      match key with
      | none => none
      | some key =>
        let value : Option Found :=
          match key.rest with
          | .value :: rest =>
            if endsFlowNode rest then some ⟨nothing, key.names, rest⟩
            else readNode handles steps false key.names rest
          | rest => some ⟨nothing, key.names, rest⟩
        match value with
        | none => none
        | some value =>
          readFlowEntries handles steps slot false ((key.tree, value.tree) :: done) value.names
            value.rest
    | _, some tokens =>
      match readNode handles steps false names tokens with
      | none => none
      | some key =>
        readFlowEntries handles steps slot false ((key.tree, nothing) :: done) key.names key.rest

end

/-- Read the declarations in front of a document: the handles, and the rest. Nothing may be
declared twice, and the version must be a known one. -/
def readDeclarations : (versioned : Bool) → Handles → List Token → Option (Handles × List Token)
  | versioned, handles, .version major minor :: rest =>
    if versioned || major != 1 || (minor != 1 && minor != 2) then none
    else readDeclarations true handles rest
  | versioned, handles, .handle name lead :: rest =>
    if (handles.lookup name).isSome then none
    else readDeclarations versioned ((name, lead) :: handles) rest
  | _, handles, rest => some (handles, rest)

/-- Whether a token stands at the border of a document and not in it. -/
def endsDocument : List Token → Bool
  | [] | .version .. :: _ | .handle .. :: _ | .documentStart :: _ | .documentEnd :: _ => true
  | _ => false

/-- Read the content of a document that is started explicitly, behind its declarations. -/
def readExplicit (handles : Handles) (steps : Nat) (tokens : List Token) : Option Found :=
  match tokens with
  | .documentStart :: rest =>
    if endsDocument rest then some ⟨nothing, [], rest⟩
    else readNode (handles ++ standingHandles) steps true [] rest
  | _ => none

/-- The tree of the only document among some tokens; without a document there is nothing. -/
def ofTokens? (tokens : List Token) : Option Tree := do
  let steps := 2 * tokens.length + 2
  if tokens.isEmpty then return nothing
  let found ←
    if endsDocument tokens && tokens.head? != some .documentEnd then do
      let (handles, rest) ← readDeclarations false [] tokens
      readExplicit handles steps rest
    else readNode standingHandles steps true [] tokens
  if found.rest.all (· == .documentEnd) then some found.tree else none

mutual

/-- The anchored nodes of a tree with their slots, in the order of the text. -/
def anchored : Tree → List (Nat × Tree)
  | .scalar slot tag style text =>
    slot.toList.map fun n => (n, .scalar slot tag style text)
  | .mapping slot entries =>
    slot.toList.map (fun n => (n, .mapping slot entries)) ++ anchoredEntries entries
  | .alias _ => []

/-- The anchored nodes of the entries of a mapping. -/
def anchoredEntries : List (Tree × Tree) → List (Nat × Tree)
  | [] => []
  | (key, value) :: rest => key.anchored ++ value.anchored ++ anchoredEntries rest

end

/-- The last node that was put into each slot. -/
def lastAnchored : List (Nat × Tree) → List (Nat × Tree)
  | [] => []
  | (slot, tree) :: rest =>
    if rest.any fun other => other.1 == slot then lastAnchored rest
    else (slot, tree) :: lastAnchored rest

mutual

/-- The document that a tree describes, given what the slots contain; a key must be a
scalar. -/
def resolve? (slots : List (Nat × Yaml)) : Tree → Option Yaml
  | .scalar _ tag style text => some (.scalar tag style text)
  | .alias slot => slots.lookup slot
  | .mapping _ entries => (resolveEntries? slots entries).map .mapping

/-- The entries that the entries of a tree describe. -/
def resolveEntries? (slots : List (Nat × Yaml)) : List (Tree × Tree) →
    Option (List (String × Yaml))
  | [] => some []
  | (key, value) :: rest =>
    match key.resolve? slots, value.resolve? slots, resolveEntries? slots rest with
    | some (.scalar _ _ text), some value, some rest => some ((text, value) :: rest)
    | _, _, _ => none

end

/-- The documents in the slots that do not hang on more aliases in a row than there are
rounds; a node that contains itself is in no round among them. -/
def resolveSlots (slots : List (Nat × Tree)) : (rounds : Nat) → List (Nat × Yaml)
  | 0 => []
  | rounds + 1 =>
    let known := resolveSlots slots rounds
    slots.filterMap fun (slot, tree) => (tree.resolve? known).map fun found => (slot, found)

/-- The document that a tree describes. -/
def toYaml? (tree : Tree) : Option Yaml :=
  let slots := lastAnchored tree.anchored
  tree.resolve? (resolveSlots slots slots.length)

end Tree

end GuardElision.Yaml
