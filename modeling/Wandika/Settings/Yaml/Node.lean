import Wandika.Settings.Yaml.Token

/-!
# Nodes of YAML

* `Node`: scalars, sequences, mappings and references to nodes with an anchor;
* `node`: the grammar of nodes in block and flow style;
* `document`: the node of the first document of a text.
-/

namespace Wandika.Yaml

/-- Nodes. A reference comes with the node it refers to, which is `unfinished` if the reference
stands inside of it. -/
inductive Node
  | scalar (tag : String) (quoted : Bool) (text : String)
  | sequence (items : List Node)
  | mapping (names values : List Node)
  | reference (name : String) (target : Node)
  | unfinished

/-- The node of an entry that is left out. -/
def Node.absent : Node := .scalar "" false ""

/-- Reads nodes, given the nodes with an anchor so far. -/
abbrev Read := StateT (List (String × Node)) Lex

namespace Read

/-- The next token. -/
def peek : Read Token := liftM Lex.peek

/-- Takes the next token. -/
def take : Read Unit := liftM Lex.take

/-- Gives the node that is about to be read an anchor. -/
def anchor : Option String → Read Unit
  | some name => modify (List.cons (name, .unfinished))
  | none => return ()

/-- The anchor of a node now refers to the node, unless the node holds a newer one. -/
def finish (name : Option String) (n : Node) : Read Node := do
  if let some name := name then
    if let some .unfinished := (← get).lookup name then modify (List.cons (name, n))
  return n

/-- What may stand before a node: an anchor and a tag, in either order. -/
def properties : Read (Option String × String) := do
  let tagOf : Option String → Read String := fun name => match name with
    | some name => return name
    | none => failure
  match ← peek with
  | .anchor name =>
      take
      match ← peek with
      | .tag tag =>
          take
          return (some name, ← tagOf tag)
      | _ => return (some name, "")
  | .tag tag =>
      take
      match ← peek with
      | .anchor name =>
          take
          return (some name, ← tagOf tag)
      | _ => return (none, ← tagOf tag)
  | _ => return (none, "")

mutual

/-- A node. Block collections may begin only in block style, and items without further indentation
only after the colon of a block mapping. -/
def node : (fuel : Nat) → (block items : Bool) → Read Node
  | 0, _, _ => failure
  | fuel + 1, block, items => do
      if let .reference name ← peek then
        take
        match (← get).lookup name with
        | some target => return .reference name target
        | none => failure
      else
        let (name, tag) ← properties
        anchor name
        let n ← match ← peek, block, items with
          | .blockEntry, _, true => looseItems fuel []
          | .scalar quoted text, _, _ => do
              take
              pure (.scalar tag quoted text)
          | .flowSequence, _, _ => do
              take
              flowItems fuel true []
          | .flowMapping, _, _ => do
              take
              flowEntries fuel true [] []
          | .blockSequence, true, _ => do
              take
              blockItems fuel []
          | .blockMapping, true, _ => do
              take
              blockEntries fuel [] []
          | _, _, _ => if name.isNone && tag = "" then failure else pure (.scalar tag false "")
        finish name n

/-- A node, or none at all before one of some tokens. -/
def nodeUnless : (fuel : Nat) → (stops : List Token) → (block items : Bool) → Read Node
  | 0, _, _, _ => failure
  | fuel + 1, stops, block, items => do
      if stops.contains (← peek) then return .absent else node fuel block items

/-- The items of a block sequence up to its end. -/
def blockItems : (fuel : Nat) → List Node → Read Node
  | 0, _ => failure
  | fuel + 1, done => do
      match ← peek with
      | .blockEntry =>
          take
          let n ← nodeUnless fuel [.blockEntry, .blockEnd] true false
          blockItems fuel (done ++ [n])
      | .blockEnd =>
          take
          return .sequence done
      | _ => failure

/-- Items that are not indented further than the mapping around them. -/
def looseItems : (fuel : Nat) → List Node → Read Node
  | 0, _ => failure
  | fuel + 1, done => do
      match ← peek with
      | .blockEntry =>
          take
          let n ← nodeUnless fuel [.blockEntry, .key, .value, .blockEnd] true false
          looseItems fuel (done ++ [n])
      | _ => return .sequence done

/-- The entries of a block mapping up to its end. -/
def blockEntries : (fuel : Nat) → (names values : List Node) → Read Node
  | 0, _, _ => failure
  | fuel + 1, names, values => do
      match ← peek with
      | .key =>
          take
          let name ← nodeUnless fuel [.key, .value, .blockEnd] true true
          let value ← blockValue fuel
          blockEntries fuel (names ++ [name]) (values ++ [value])
      | .blockEnd =>
          take
          return .mapping names values
      | _ => failure

/-- The value of an entry of a block mapping. -/
def blockValue : (fuel : Nat) → Read Node
  | 0 => failure
  | fuel + 1 => do
      if (← peek) = .value then
        take
        nodeUnless fuel [.key, .value, .blockEnd] true true
      else return .absent

/-- The items of a flow sequence up to its end. An entry of a mapping may stand for an item. -/
def flowItems : (fuel : Nat) → (first : Bool) → List Node → Read Node
  | 0, _, _ => failure
  | fuel + 1, first, done => do
      if !first && (← peek) ≠ .flowSequenceEnd then
        if (← peek) = .flowEntry then take else failure
      match ← peek with
      | .flowSequenceEnd =>
          take
          return .sequence done
      | .key =>
          take
          let name ←
            if [Token.value, .flowEntry, .flowSequenceEnd].contains (← peek) then do
              take
              pure Node.absent
            else node fuel false false
          let value ←
            if (← peek) = .value then do
              take
              nodeUnless fuel [.flowEntry, .flowSequenceEnd] false false
            else pure Node.absent
          flowItems fuel false (done ++ [.mapping [name] [value]])
      | _ =>
          let n ← node fuel false false
          flowItems fuel false (done ++ [n])

/-- The entries of a flow mapping up to its end. -/
def flowEntries : (fuel : Nat) → (first : Bool) → (names values : List Node) → Read Node
  | 0, _, _, _ => failure
  | fuel + 1, first, names, values => do
      if !first && (← peek) ≠ .flowMappingEnd then
        if (← peek) = .flowEntry then take else failure
      match ← peek with
      | .flowMappingEnd =>
          take
          return .mapping names values
      | .key =>
          take
          let name ← nodeUnless fuel [.value, .flowEntry, .flowMappingEnd] false false
          let value ←
            if (← peek) = .value then do
              take
              nodeUnless fuel [.flowEntry, .flowMappingEnd] false false
            else pure Node.absent
          flowEntries fuel false (names ++ [name]) (values ++ [value])
      | _ =>
          let name ← node fuel false false
          let _ ← peek
          flowEntries fuel false (names ++ [name]) (values ++ [.absent])

end

/-- Directives and the marker of a document's start. There may be one directive, and it has to tell
version 1.1. -/
def documentStart : Read Unit := do
  if let .version major minor ← peek then
    if major.toNat? ≠ some 1 || minor.toNat? ≠ some 1 then failure
    take
  if (← peek) = .documentStart then take else failure

/-- The node of the first document, if there is one. What follows the document is not read further
than the lexer reads ahead. -/
def document (fuel : Nat) : Read (Option Node) := do
  let n ← match ← peek with
    | .streamEnd => return none
    | .version _ _ | .documentStart => do
        documentStart
        match ← peek with
        | .version _ _ | .documentStart | .documentEnd | .streamEnd => pure .absent
        | _ => node fuel true false
    | _ => node fuel true false
  let _ ← peek
  return some n

end Read

/-- The node of the first document of a text, if there is one. -/
def document? (cs : List Char) : Option (Option Node) :=
  let fuel := 8 * cs.length + 32
  ((Read.document fuel).run []).run { cursor := { rest := cs } } |>.map (·.1.1)

end Wandika.Yaml
