import Wandika.Generator.Template
import Wandika.Text.Letter

/-!
# Fields

The fields of a node type have to be well-formed Go, since each of them becomes a field of a
structure, a parameter of a function and a value in a literal.

* `Word`: the words of a field;
* `FieldType`: types, and how they are laid out;
* `Field`: a type with a name, or a type alone.
-/

namespace Wandika.Generator

/-- Words that are no identifiers. -/
def goKeywords : List String :=
  ["break", "case", "chan", "const", "continue", "default", "defer", "else", "fallthrough", "for",
   "func", "go", "goto", "if", "import", "interface", "map", "package", "range", "return",
   "select", "struct", "switch", "type", "var"]

/-- Characters that an identifier begins with. -/
def isIdentStart (c : Char) : Bool :=
  Text.isLetter c || c = '_'

/-- Characters of an identifier. -/
def isIdentChar (c : Char) : Bool :=
  isIdentStart c || Text.isDigit c

/-- Letters, digits and underscores that do not begin with a digit and form no keyword. -/
def isIdent (s : String) : Bool :=
  match s.toList with
  | [] => false
  | c :: cs => isIdentStart c && cs.all isIdentChar && !goKeywords.contains s

/-- The words of a field. -/
inductive Word
  | name (s : String)
  | number (s : String)
  | mark (c : Char)
  deriving DecidableEq

/-- Splits a text into words; blanks between them do not count. -/
def words : (fuel : Nat) → List Char → Option (List Word)
  | 0, _ => none
  | _ + 1, [] => some []
  | fuel + 1, c :: cs =>
      if c = ' ' || c = '\t' then words fuel cs
      else if isIdentStart c then
        (words fuel (cs.dropWhile isIdentChar)).map
          (Word.name (String.ofList (c :: cs.takeWhile isIdentChar)) :: ·)
      else if Text.isDigit c then
        (words fuel (cs.dropWhile Text.isDigit)).map
          (Word.number (String.ofList (c :: cs.takeWhile Text.isDigit)) :: ·)
      else if "*[].()\x7b\x7d<-".toList.contains c then (words fuel cs).map (Word.mark c :: ·)
      else none

/-- Types of fields. -/
inductive FieldType
  | named (s : String)
  | qualified (package s : String)
  | pointer (t : FieldType)
  | slice (t : FieldType)
  | array (size : String) (t : FieldType)
  | map (key value : FieldType)
  | chan (t : FieldType)
  | source (t : FieldType)
  | sink (t : FieldType)
  | group (t : FieldType)
  | interface
  | struct

/-- A type as it is laid out. -/
def FieldType.render : FieldType → String
  | .named s => s
  | .qualified package s => package ++ "." ++ s
  | .pointer t => "*" ++ t.render
  | .slice t => "[]" ++ t.render
  | .array size t => "[" ++ size ++ "]" ++ t.render
  | .map key value => "map[" ++ key.render ++ "]" ++ value.render
  | .chan t => "chan " ++ t.render
  | .source t => "<-chan " ++ t.render
  | .sink t => "chan<- " ++ t.render
  | .group t => "(" ++ t.render ++ ")"
  | .interface => "interface\x7b\x7d"
  | .struct => "struct\x7b\x7d"

/-- A type at the front of some words, and the words after it. -/
def typeAt : (fuel : Nat) → List Word → Option (FieldType × List Word)
  | 0, _ => none
  | fuel + 1, ws =>
      match ws with
      | .mark '*' :: ws => (typeAt fuel ws).map fun (t, ws) => (.pointer t, ws)
      | .mark '[' :: .mark ']' :: ws => (typeAt fuel ws).map fun (t, ws) => (.slice t, ws)
      | .mark '[' :: .number n :: .mark ']' :: ws =>
          (typeAt fuel ws).map fun (t, ws) => (.array n t, ws)
      | .mark '[' :: .name n :: .mark ']' :: ws =>
          if isIdent n then (typeAt fuel ws).map fun (t, ws) => (.array n t, ws) else none
      | .mark '(' :: ws =>
          match typeAt fuel ws with
          | some (t, .mark ')' :: ws) => some (.group t, ws)
          | _ => none
      | .mark '<' :: .mark '-' :: .name "chan" :: ws =>
          (typeAt fuel ws).map fun (t, ws) => (.source t, ws)
      | .name "chan" :: .mark '<' :: .mark '-' :: ws =>
          (typeAt fuel ws).map fun (t, ws) => (.sink t, ws)
      | .name "chan" :: ws => (typeAt fuel ws).map fun (t, ws) => (.chan t, ws)
      | .name "map" :: .mark '[' :: ws =>
          match typeAt fuel ws with
          | some (key, .mark ']' :: ws) =>
              (typeAt fuel ws).map fun (value, ws) => (.map key value, ws)
          | _ => none
      | .name "interface" :: .mark '\x7b' :: .mark '\x7d' :: ws => some (.interface, ws)
      | .name "struct" :: .mark '\x7b' :: .mark '\x7d' :: ws => some (.struct, ws)
      | .name p :: .mark '.' :: .name s :: ws =>
          if isIdent p && isIdent s then some (.qualified p s, ws) else none
      | .name s :: ws => if isIdent s then some (.named s, ws) else none
      | _ => none

/-- A type that fills all words. -/
def type? (ws : List Word) : Option FieldType :=
  match typeAt (ws.length + 1) ws with
  | some (t, []) => some t
  | _ => none

/-- A type with a name, or a type alone. -/
inductive Field
  | named (name : String) (type : FieldType)
  | alone (type : FieldType)

/-- Whether a type may stand alone in a structure: a type name or a pointer to one. -/
def FieldType.isEmbeddable : FieldType → Bool
  | .named _ => true
  | .qualified _ _ => true
  | .pointer (.named _) => true
  | .pointer (.qualified _ _) => true
  | _ => false

/-- The field of a text. Its first word, up to a blank, is the value in the literal and has to be a
value by itself. -/
def Field.ofText? (s : String) : Option Field :=
  match words (s.length + 1) s.toList with
  | none => none
  | some ws =>
      match type? ws with
      | some t => if t.isEmbeddable && !s.toList.contains ' ' then some (.alone t) else none
      | none =>
          match ws with
          | .name n :: rest =>
              if isIdent n && wordOf s = n then (type? rest).map (Field.named n) else none
          | _ => none

/-- The value of a field in the literal. -/
def Field.value : Field → String
  | .named n _ => n
  | .alone t => t.render

/-- The fields of a field list; a comma may follow the last one. -/
def fields? (fields : String) : Option (List Field) :=
  let items := fieldsOf fields
  let items := if items.getLast? = some "" then items.dropLast else items
  items.mapM Field.ofText?

/-- Whether fields can be parameters: if one has a name then all have, and a type alone counts as
the name of a parameter with the next type. -/
def areParameters : List Field → Bool
  | [] => true
  | fs =>
      let isNamed := fun (f : Field) => match f with
        | .named _ _ => true
        | .alone _ => false
      let isName := fun (f : Field) => match f with
        | .named _ _ => true
        | .alone (.named _) => true
        | .alone _ => false
      !fs.any isNamed || (fs.all isName && fs.getLast?.any isNamed)

/-- A field as a parameter. -/
def Field.parameter : Field → String
  | .named n t => n ++ " " ++ t.render
  | .alone t => t.render

/-- The widest name among the fields at the front that have one. -/
def nameWidth : List Field → Nat
  | .named n _ :: rest => max n.length (nameWidth rest)
  | _ => 0

/-- The lines of fields in a structure. Types of adjacent fields are aligned; `width` is the width
of the names of the current run. -/
def fieldLines : (width : Option Nat) → List Field → List String
  | _, [] => []
  | width, .named n t :: rest =>
      let w := width.getD (max n.length (nameWidth rest))
      ("\t" ++ n ++ String.ofList (List.replicate (w - n.length + 1) ' ') ++ t.render ++ "\n")
        :: fieldLines (some w) rest
  | _, .alone t :: rest => ("\t" ++ t.render ++ "\n") :: fieldLines none rest

end Wandika.Generator
