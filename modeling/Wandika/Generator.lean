import Wandika.Command.Host
import Wandika.Generator.Field

/-!
# The generator of node types

* `fileText?`: the declarations of a list of node types, laid out, or none if they would not be
  well formed;
* `writeFile`: writes them into a directory, which names the package;
* `Generator.run`: the command, which writes the node types of the language itself.
-/

namespace Wandika.Generator

/-- Why a file was not written. -/
inductive GeneratorError
  | malformed (base : String)
  | file (error : FileError)

/-- The declarations of one node type, laid out. -/
def typeDeclarations? (base : String) (t : NodeType) : Option String :=
  (fields? t.fields).bind fun fs =>
    if areParameters fs && isIdent (t.name ++ base) then
      let full := t.name ++ base
      some ("\ntype " ++ full ++ " struct \x7b\n" ++ String.join (fieldLines none fs) ++
        "\x7d\n\nfunc New" ++ full ++ "(" ++ String.intercalate ", " (fs.map Field.parameter) ++
        ") *" ++ full ++ " \x7b\n\treturn &" ++ full ++ "\x7b" ++
        String.intercalate ", " (fs.map Field.value) ++ "\x7d\n\x7d\n\n" ++ acceptText base t.name)
    else none

/-- The text of a file, laid out. All names in it have to be identifiers. -/
def fileText? (package base : String) (lines : List String) : Option String :=
  if isIdent package && isIdent base && isIdent (Text.toLower base) then
    ((lines.mapM NodeType.ofLine?).bind fun ts => ts.mapM (typeDeclarations? base)).map fun ds =>
      headText package base ++ visitorText base lines ++ String.join ds
  else none

variable {m : Type → Type} [Monad m] [Host m]

/-- Writes the declarations of node types into a directory. It gives the path and the text. -/
def writeFile (dir base : String) (lines : List String) :
    m (Except GeneratorError (String × String)) := do
  match fileText? (Path.base (Path.clean dir)) base lines with
  | none => return .error (.malformed base)
  | some text =>
      let path := Path.join dir (Text.toLower base ++ ".go")
      match ← Host.writeFile path (Text.Utf8.encode text) with
      | .ok () => return .ok (path, text)
      | .error e => return .error (.file e)

/-- The expressions of the language. -/
def expressionTypes : List String :=
  ["Assign: ID int, Name *Token, Val Expr",
   "Binary: Op *Token, Lhs Expr, Rhs Expr",
   "Call: Callee Expr, Paren *Token, Args []Expr",
   "Get: Obj Expr, Name *Token",
   "Group: Expr Expr",
   "Literal: Val Value",
   "Logical: Op *Token, Lhs Expr, Rhs Expr",
   "Set: Obj Expr, Name *Token, Val Expr",
   "Ternary: Cond Expr, Question *Token, Then Expr, Else Expr",
   "Unary: Op *Token, Expr Expr",
   "Var: ID int, Name *Token"]

/-- The statements of the language. -/
def statementTypes : List String :=
  ["Block: Stmts []Stmt",
   "Class: Name *Token, Methods []*FunctionStmt",
   "Expr: Expr Expr",
   "Function: Name *Token, Params []*Token, Body []Stmt",
   "If: Cond Expr, ThenBranch Stmt, ElseBranch Stmt",
   "Print: Expr Expr",
   "Return: Keyword *Token, Val Expr",
   "Var: Name *Token, Init Expr",
   "While: Cond Expr, Body Stmt"]

/-- What is said about a text that is not well formed. -/
def malformedText : String := "not well formed"

/-- The wording of an error. -/
def GeneratorError.message : GeneratorError → String
  | .malformed base => "format " ++ base ++ ": " ++ malformedText
  | .file e => e.message

/-- Writes files until one cannot be written. -/
def writeAll (dir : String) : List (String × List String) → m Nat
  | [] => return 0
  | (base, lines) :: rest => do
      match ← writeFile dir base lines with
      | .ok _ => writeAll dir rest
      | .error e =>
          Host.err (e.message ++ "\n")
          return 1

/-- The command: writes the node types of the language into a directory. It gives the exit
status. -/
def run (args : List String) : m Nat := do
  match args with
  | [dir] => writeAll dir [("Expr", expressionTypes), ("Stmt", statementTypes)]
  | _ =>
      Host.out "Usage: ast_codegen <output directory>\n"
      return 64

end Wandika.Generator
