import Wandika.Text.Quoted
import Wandika.Token

/-!
# Syntax trees

* `Datum`: what a literal expression holds;
* `Expr`, `Stmt`, `FunDecl`: expressions, statements and function declarations;
* `Program`: the statements of one source unit with the number of its variable nodes.

Every variable and every assignment carries a number of its own, by which the tables of the scope
analysis are indexed. A token that is only needed to place an error may be missing from a tree
that was put together by hand.
-/

namespace Wandika

/-- A class. Two declarations give two classes, even under one name. -/
structure Class where
  id : Nat
  name : String
  deriving DecidableEq, Inhabited

/-- A reference to an object, with the class that made it. -/
structure Object where
  id : Nat
  cls : Class
  deriving DecidableEq, Inhabited

/-- What a literal expression holds. Source text only gives numbers, texts, truth values and nil;
`absent` is the lack of any value. -/
inductive Datum
  | absent
  | nil
  | number (x : Float)
  | text (s : String)
  | bool (b : Bool)
  | cls (c : Class)
  | object (o : Object)
  deriving Inhabited

/-- The printed form of a datum. -/
def Datum.render : Datum → String
  | .absent => "nil"
  | .nil => "nil"
  | .number x => Decimal.plain.render x
  | .text s => s
  | .bool b => if b then "true" else "false"
  | .cls c => c.name
  | .object o => o.cls.name ++ " instance"

/-- Expressions. -/
inductive Expr
  | assign (id : Int) (name : Token) (value : Expr)
  | binary (op : Token) (lhs rhs : Expr)
  | call (callee : Expr) (paren : Option Token) (args : List Expr)
  | get (object : Expr) (name : Token)
  | group (inner : Expr)
  | literal (value : Datum)
  | logical (op : Token) (lhs rhs : Expr)
  | set (object : Expr) (name : Token) (value : Expr)
  | ternary (cond : Expr) (question : Option Token) (yes : Expr) (no : Option Expr)
  | unary (op : Token) (operand : Expr)
  | variable (id : Int) (name : Token)
  deriving Inhabited

mutual

/-- Statements. -/
inductive Stmt
  | block (body : List Stmt)
  | classDecl (name : Token) (methods : List FunDecl)
  | expr (value : Expr)
  | function (decl : FunDecl)
  | branch (cond : Expr) (yes : Stmt) (no : Option Stmt)
  | print (value : Expr)
  | ret (keyword : Option Token) (value : Option Expr)
  | varDecl (name : Token) (init : Option Expr)
  | loop (cond : Expr) (body : Stmt)

/-- A named function with its parameters and its body. -/
inductive FunDecl
  | mk (name : Token) (params : List Token) (body : List Stmt)

end

namespace FunDecl

/-- The name of the function. -/
def name : FunDecl → Token
  | .mk name _ _ => name

/-- The parameters of the function. -/
def params : FunDecl → List Token
  | .mk _ params _ => params

/-- The statements of the function. -/
def body : FunDecl → List Stmt
  | .mk _ _ body => body

/-- How many arguments the function takes. -/
def arity (f : FunDecl) : Nat := f.params.length

end FunDecl

instance : Inhabited Stmt := ⟨.block []⟩

instance : Inhabited FunDecl := ⟨.mk default [] []⟩

/-- One source unit. `nodes` is one more than the largest number of a variable node. -/
structure Program where
  stmts : List Stmt
  nodes : Nat

end Wandika
