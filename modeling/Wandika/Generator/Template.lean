import Wandika.Text.Blank
import Wandika.Text.LowerCase

/-!
# Declarations of node types

A tree with visitors is described by one line per node type, the name and the fields of the type
with a colon between them. From such lines the Go declarations of the types are written: an
interface for all nodes, an interface for visitors, and for every type a structure, a constructor
and the method that accepts a visitor.

* `splitText`: the parts of a text between separators;
* `NodeType`: the name and the fields of a node type;
* `visitorText`, `typeText`: declarations as they are first written, before they are laid out.
-/

namespace Wandika.Generator

/-- The parts of a text between separators. There is always at least one. -/
def splitText (sep : Char) (s : String) : List String :=
  (s.toList.splitOn sep).map String.ofList

/-- The name and the fields of a node type. -/
structure NodeType where
  name : String
  fields : String
  deriving DecidableEq

/-- The name in a line. -/
def nameOf (line : String) : String :=
  Text.trim ((splitText ':' line).headD "")

/-- The node type of a line, if it has a colon. Text after a second colon does not count. -/
def NodeType.ofLine? (line : String) : Option NodeType :=
  match splitText ':' line with
  | name :: fields :: _ => some ⟨Text.trim name, Text.trim fields⟩
  | _ => none

/-- The fields of a field list. -/
def fieldsOf (fields : String) : List String :=
  (splitText ',' fields).map Text.trim

/-- The first word of a field. -/
def wordOf (field : String) : String :=
  (splitText ' ' field).headD ""

/-- The method of a visitor for a type. -/
def visitLine (base name : String) : String :=
  "\tVisit" ++ name ++ base ++ "(" ++ Text.toLower base ++ " *" ++ name ++ base ++
    ") (interface\x7b\x7d, error)\n"

/-- The interface of visitors. -/
def visitorText (base : String) (lines : List String) : String :=
  "type " ++ base ++ "Visitor interface \x7b\n" ++
    String.join (lines.map fun l => visitLine base (nameOf l)) ++ "\x7d\n"

/-- The method that accepts a visitor. -/
def acceptText (base name : String) : String :=
  let receiver := Text.toLower base
  "func (" ++ receiver ++ " *" ++ name ++ base ++ ") Accept(visitor " ++ base ++
    "Visitor) (interface\x7b\x7d, error) \x7b\n" ++
    "\treturn visitor.Visit" ++ name ++ base ++ "(" ++ receiver ++ ")\n\x7d\n"

/-- A structure, its constructor and the method that accepts a visitor. -/
def typeText (base name fields : String) : String :=
  let items := fieldsOf fields
  "\ntype " ++ name ++ base ++ " struct \x7b\n" ++
    String.join (items.map fun f => "\t" ++ f ++ "\n") ++ "\x7d\n\n" ++
    "func New" ++ name ++ base ++ "(" ++ fields ++ ") *" ++ name ++ base ++ " \x7b\n" ++
    "\treturn &" ++ name ++ base ++ "\x7b" ++ String.intercalate ", " (items.map wordOf) ++
    "\x7d\n\x7d\n\n" ++ acceptText base name

/-- The head of a file: its package and the interface of all nodes. -/
def headText (package base : String) : String :=
  "// Code generated by ast_codegen. DO NOT EDIT.\n\npackage " ++ package ++ "\n\n" ++
    "type " ++ base ++ " interface \x7b\n\tAccept(visitor " ++ base ++
    "Visitor) (interface\x7b\x7d, error)\n\x7d\n\n"

end Wandika.Generator
