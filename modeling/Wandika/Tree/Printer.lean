import Wandika.Tree

/-!
# Trees as prefix expressions

Every node is written as a parenthesised list that begins with what it does, and every top-level
statement on a line of its own.

* `Expr.render`, `Stmt.render`, `FunDecl.render`;
* `Program.render`: one line per statement.
-/

namespace Wandika

/-- A parenthesised list of a head and its parts. -/
def parenthesize (head : String) (parts : List String) : String :=
  "(" ++ String.intercalate " " (head :: parts) ++ ")"

/-- A datum in a tree: texts are quoted. -/
def Datum.renderQuoted : Datum → String
  | .text s => Text.quote s
  | d => d.render

mutual

/-- An expression as a prefix expression. -/
def Expr.render : Expr → String
  | .assign _ name value => parenthesize "=" [name.lexeme, value.render]
  | .binary op lhs rhs => parenthesize op.lexeme [lhs.render, rhs.render]
  | .call callee _ args => parenthesize "call" (callee.render :: Expr.renderAll args)
  | .get object name => parenthesize "." [object.render, name.lexeme]
  | .group inner => parenthesize "group" [inner.render]
  | .literal value => value.renderQuoted
  | .logical op lhs rhs => parenthesize op.lexeme [lhs.render, rhs.render]
  | .set object name value =>
      parenthesize "=" [parenthesize "." [object.render, name.lexeme], value.render]
  | .ternary cond _ yes none => parenthesize "?:" [cond.render, yes.render]
  | .ternary cond _ yes (some no) => parenthesize "?:" [cond.render, yes.render, no.render]
  | .unary op operand => parenthesize op.lexeme [operand.render]
  | .variable _ name => name.lexeme

/-- Several expressions. -/
def Expr.renderAll : List Expr → List String
  | [] => []
  | e :: es => e.render :: Expr.renderAll es

end

mutual

/-- A statement as a prefix expression. The statements of a body form one part. -/
def Stmt.render : Stmt → String
  | .block body => parenthesize "block" [String.intercalate " " (Stmt.renderAll body)]
  | .classDecl name methods => parenthesize "class" (name.lexeme :: FunDecl.renderAll methods)
  | .expr value => parenthesize ";" [value.render]
  | .function decl => decl.render
  | .branch cond yes none => parenthesize "if" [cond.render, yes.render]
  | .branch cond yes (some no) => parenthesize "if" [cond.render, yes.render, no.render]
  | .print value => parenthesize "wandika" [value.render]
  | .ret _ none => parenthesize "return" []
  | .ret _ (some value) => parenthesize "return" [value.render]
  | .varDecl name none => parenthesize "var" [name.lexeme]
  | .varDecl name (some init) => parenthesize "var" [name.lexeme, init.render]
  | .loop cond body => parenthesize "albeit" [cond.render, body.render]

/-- A function declaration as a prefix expression. -/
def FunDecl.render : FunDecl → String
  | .mk name params body =>
      parenthesize "func"
        [name.lexeme,
         "(" ++ String.intercalate " " (params.map (·.lexeme)) ++ ")",
         String.intercalate " " (Stmt.renderAll body)]

/-- Several statements. -/
def Stmt.renderAll : List Stmt → List String
  | [] => []
  | s :: ss => s.render :: Stmt.renderAll ss

/-- Several function declarations. -/
def FunDecl.renderAll : List FunDecl → List String
  | [] => []
  | f :: fs => f.render :: FunDecl.renderAll fs

end

/-- One line per statement. -/
def renderStmts (stmts : List Stmt) : String :=
  String.join ((Stmt.renderAll stmts).map (· ++ "\n"))

/-- A program, one statement to a line. -/
def Program.render (p : Program) : String :=
  renderStmts p.stmts

end Wandika
