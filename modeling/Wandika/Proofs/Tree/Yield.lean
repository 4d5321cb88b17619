import Wandika.Proofs.Token.Standard
import Wandika.Tree.Parser

/-!
# Trees written back as tokens

* `Expr.yield`, `Stmt.yield`, `FunDecl.yield`: the signs of a tree from left to right;
* `Expr.ids`, `Stmt.ids`, `FunDecl.ids`: the numbers of its variable nodes, in the same order;
* `Expr.bare`, `Stmt.bare`, `FunDecl.bare`: a tree without node numbers and places;
* `yieldAll_bare`: the signs of a tree do not depend on them.
-/

namespace Wandika

/-! ### Signs -/

/-- The sign of a literal. -/
def Datum.yield : Datum → List Sign
  | .nil => [.mark .nilWord]
  | .number x => [.number (some (.number x))]
  | .text s => [.other .string ("\"" ++ s ++ "\"")]
  | .bool true => [.mark .trueWord]
  | .bool false => [.mark .falseWord]
  | _ => []

mutual

/-- The signs of an expression. -/
def Expr.yield : Expr → List Sign
  | .assign _ name value => name.sign :: .mark .equal :: value.yield
  | .binary op lhs rhs => lhs.yield ++ op.sign :: rhs.yield
  | .call callee _ args =>
      callee.yield ++ .mark .leftParen :: (Expr.yieldAll args ++ [.mark .rightParen])
  | .get object name => object.yield ++ [.mark .dot, name.sign]
  | .group inner => .mark .leftParen :: (inner.yield ++ [.mark .rightParen])
  | .literal value => value.yield
  | .logical op lhs rhs => lhs.yield ++ op.sign :: rhs.yield
  | .set object name value =>
      object.yield ++ .mark .dot :: name.sign :: .mark .equal :: value.yield
  | .ternary cond _ yes none => cond.yield ++ .mark .question :: yes.yield
  | .ternary cond _ yes (some no) =>
      cond.yield ++ .mark .question :: (yes.yield ++ .mark .colon :: no.yield)
  | .unary op operand => op.sign :: operand.yield
  | .variable _ name => [name.sign]

/-- The signs of several expressions, with commas between them. -/
def Expr.yieldAll : List Expr → List Sign
  | [] => []
  | [e] => e.yield
  | e :: es => e.yield ++ .mark .comma :: Expr.yieldAll es

end

/-- The signs of several names, with commas between them. -/
def Token.yieldAll : List Token → List Sign
  | [] => []
  | [t] => [t.sign]
  | t :: ts => t.sign :: .mark .comma :: Token.yieldAll ts

mutual

/-- The signs of a statement. -/
def Stmt.yield : Stmt → List Sign
  | .block body => .mark .leftBrace :: (Stmt.yieldAll body ++ [.mark .rightBrace])
  | .classDecl name methods =>
      .mark .classWord :: name.sign :: .mark .leftBrace ::
        (FunDecl.yieldAll methods ++ [.mark .rightBrace])
  | .expr value => value.yield ++ [.mark .semicolon]
  | .function decl => .mark .funcWord :: decl.yield
  | .branch cond yes none =>
      .mark .ifWord :: .mark .leftParen :: (cond.yield ++ .mark .rightParen :: yes.yield)
  | .branch cond yes (some no) =>
      .mark .ifWord :: .mark .leftParen ::
        (cond.yield ++ .mark .rightParen :: (yes.yield ++ .mark .elseWord :: no.yield))
  | .print value => .mark .printWord :: (value.yield ++ [.mark .semicolon])
  | .ret _ none => [.mark .returnWord, .mark .semicolon]
  | .ret _ (some value) => .mark .returnWord :: (value.yield ++ [.mark .semicolon])
  | .varDecl name none => [.mark .varWord, name.sign, .mark .semicolon]
  | .varDecl name (some init) =>
      .mark .varWord :: name.sign :: .mark .equal :: (init.yield ++ [.mark .semicolon])
  | .loop cond body =>
      .mark .whileWord :: .mark .leftParen :: (cond.yield ++ .mark .rightParen :: body.yield)

/-- The signs of a function, from its name on. -/
def FunDecl.yield : FunDecl → List Sign
  | .mk name params body =>
      name.sign :: .mark .leftParen :: (Token.yieldAll params ++ .mark .rightParen ::
        .mark .leftBrace :: (Stmt.yieldAll body ++ [.mark .rightBrace]))

/-- The signs of several statements. -/
def Stmt.yieldAll : List Stmt → List Sign
  | [] => []
  | s :: ss => s.yield ++ Stmt.yieldAll ss

/-- The signs of several functions. -/
def FunDecl.yieldAll : List FunDecl → List Sign
  | [] => []
  | f :: fs => f.yield ++ FunDecl.yieldAll fs

end

/-- The signs of a program. -/
def Program.yield (p : Program) : List Sign :=
  Stmt.yieldAll p.stmts

/-! ### Node numbers -/

mutual

/-- The numbers of the variable nodes of an expression, by the place of their names. -/
def Expr.ids : Expr → List Int
  | .assign id _ value => id :: value.ids
  | .binary _ lhs rhs => lhs.ids ++ rhs.ids
  | .call callee _ args => callee.ids ++ Expr.idsAll args
  | .get object _ => object.ids
  | .group inner => inner.ids
  | .literal _ => []
  | .logical _ lhs rhs => lhs.ids ++ rhs.ids
  | .set object _ value => object.ids ++ value.ids
  | .ternary cond _ yes none => cond.ids ++ yes.ids
  | .ternary cond _ yes (some no) => cond.ids ++ (yes.ids ++ no.ids)
  | .unary _ operand => operand.ids
  | .variable id _ => [id]

/-- The numbers of several expressions. -/
def Expr.idsAll : List Expr → List Int
  | [] => []
  | e :: es => e.ids ++ Expr.idsAll es

end

mutual

/-- The numbers of the variable nodes of a statement. -/
def Stmt.ids : Stmt → List Int
  | .block body => Stmt.idsAll body
  | .classDecl _ methods => FunDecl.idsAll methods
  | .expr value => value.ids
  | .function decl => decl.ids
  | .branch cond yes none => cond.ids ++ yes.ids
  | .branch cond yes (some no) => cond.ids ++ (yes.ids ++ no.ids)
  | .print value => value.ids
  | .ret _ none => []
  | .ret _ (some value) => value.ids
  | .varDecl _ none => []
  | .varDecl _ (some init) => init.ids
  | .loop cond body => cond.ids ++ body.ids

/-- The numbers of the variable nodes of a function. -/
def FunDecl.ids : FunDecl → List Int
  | .mk _ _ body => Stmt.idsAll body

/-- The numbers of several statements. -/
def Stmt.idsAll : List Stmt → List Int
  | [] => []
  | s :: ss => s.ids ++ Stmt.idsAll ss

/-- The numbers of several functions. -/
def FunDecl.idsAll : List FunDecl → List Int
  | [] => []
  | f :: fs => f.ids ++ FunDecl.idsAll fs

end

/-! ### Trees without numbers and places -/

/-- A token without its place. -/
def Token.bare (t : Token) : Token := { t with pos := {} }

mutual

/-- An expression without node numbers and places. -/
def Expr.bare : Expr → Expr
  | .assign _ name value => .assign 0 name.bare value.bare
  | .binary op lhs rhs => .binary op.bare lhs.bare rhs.bare
  | .call callee _ args => .call callee.bare none (Expr.bareAll args)
  | .get object name => .get object.bare name.bare
  | .group inner => .group inner.bare
  | .literal value => .literal value
  | .logical op lhs rhs => .logical op.bare lhs.bare rhs.bare
  | .set object name value => .set object.bare name.bare value.bare
  | .ternary cond _ yes none => .ternary cond.bare none yes.bare none
  | .ternary cond _ yes (some no) => .ternary cond.bare none yes.bare (some no.bare)
  | .unary op operand => .unary op.bare operand.bare
  | .variable _ name => .variable 0 name.bare

/-- Several expressions without node numbers and places. -/
def Expr.bareAll : List Expr → List Expr
  | [] => []
  | e :: es => e.bare :: Expr.bareAll es

end

mutual

/-- A statement without node numbers and places. -/
def Stmt.bare : Stmt → Stmt
  | .block body => .block (Stmt.bareAll body)
  | .classDecl name methods => .classDecl name.bare (FunDecl.bareAll methods)
  | .expr value => .expr value.bare
  | .function decl => .function decl.bare
  | .branch cond yes none => .branch cond.bare yes.bare none
  | .branch cond yes (some no) => .branch cond.bare yes.bare (some no.bare)
  | .print value => .print value.bare
  | .ret _ none => .ret none none
  | .ret _ (some value) => .ret none (some value.bare)
  | .varDecl name none => .varDecl name.bare none
  | .varDecl name (some init) => .varDecl name.bare (some init.bare)
  | .loop cond body => .loop cond.bare body.bare

/-- A function without node numbers and places. -/
def FunDecl.bare : FunDecl → FunDecl
  | .mk name params body => .mk name.bare (params.map Token.bare) (Stmt.bareAll body)

/-- Several statements without node numbers and places. -/
def Stmt.bareAll : List Stmt → List Stmt
  | [] => []
  | s :: ss => s.bare :: Stmt.bareAll ss

/-- Several functions without node numbers and places. -/
def FunDecl.bareAll : List FunDecl → List FunDecl
  | [] => []
  | f :: fs => f.bare :: FunDecl.bareAll fs

end

@[simp] theorem Token.sign_bare (t : Token) : t.bare.sign = t.sign := rfl

theorem Token.yieldAll_cons (t : Token) {ts : List Token} (h : ts ≠ []) :
    Token.yieldAll (t :: ts) = t.sign :: .mark .comma :: Token.yieldAll ts := by
  cases ts with
  | nil => exact absurd rfl h
  | cons => rfl

theorem Expr.yieldAll_cons (e : Expr) {es : List Expr} (h : es ≠ []) :
    Expr.yieldAll (e :: es) = e.yield ++ .mark .comma :: Expr.yieldAll es := by
  cases es with
  | nil => exact absurd rfl h
  | cons => rw [Expr.yieldAll]; exact List.cons_ne_nil _ _

@[simp] theorem Token.yieldAll_map_bare (ts : List Token) :
    Token.yieldAll (ts.map Token.bare) = Token.yieldAll ts := by
  induction ts with
  | nil => rfl
  | cons t ts ih =>
    by_cases h : ts = []
    · subst h; rfl
    · rw [List.map_cons, Token.yieldAll_cons _ (by simpa using h), Token.yieldAll_cons _ h, ih,
        Token.sign_bare]

mutual

/-- The signs of an expression do not depend on numbers and places. -/
theorem Expr.yield_bare : ∀ e : Expr, e.bare.yield = e.yield
  | .assign _ name value => by simp [Expr.bare, Expr.yield, Expr.yield_bare value]
  | .binary op lhs rhs => by
      simp [Expr.bare, Expr.yield, Expr.yield_bare lhs, Expr.yield_bare rhs]
  | .call callee _ args => by
      simp [Expr.bare, Expr.yield, Expr.yield_bare callee, Expr.yieldAll_bareAll args]
  | .get object name => by simp [Expr.bare, Expr.yield, Expr.yield_bare object]
  | .group inner => by simp [Expr.bare, Expr.yield, Expr.yield_bare inner]
  | .literal value => rfl
  | .logical op lhs rhs => by
      simp [Expr.bare, Expr.yield, Expr.yield_bare lhs, Expr.yield_bare rhs]
  | .set object name value => by
      simp [Expr.bare, Expr.yield, Expr.yield_bare object, Expr.yield_bare value]
  | .ternary cond _ yes none => by
      simp [Expr.bare, Expr.yield, Expr.yield_bare cond, Expr.yield_bare yes]
  | .ternary cond _ yes (some no) => by
      simp [Expr.bare, Expr.yield, Expr.yield_bare cond, Expr.yield_bare yes, Expr.yield_bare no]
  | .unary op operand => by simp [Expr.bare, Expr.yield, Expr.yield_bare operand]
  | .variable _ name => by simp [Expr.bare, Expr.yield]

theorem Expr.yieldAll_bareAll : ∀ es : List Expr, Expr.yieldAll (Expr.bareAll es) = Expr.yieldAll es
  | [] => rfl
  | [e] => by simp [Expr.bareAll, Expr.yieldAll, Expr.yield_bare e]
  | e :: e' :: es => by
      have ih := Expr.yieldAll_bareAll (e' :: es)
      rw [Expr.bareAll, Expr.yieldAll_cons _ (by simp [Expr.bareAll]),
        Expr.yieldAll_cons _ (by simp), Expr.yield_bare e, ih]

end

mutual

/-- The signs of a statement do not depend on numbers and places. -/
theorem Stmt.yield_bare : ∀ s : Stmt, s.bare.yield = s.yield
  | .block body => by simp [Stmt.bare, Stmt.yield, Stmt.yieldAll_bareAll body]
  | .classDecl name methods => by
      simp [Stmt.bare, Stmt.yield, FunDecl.yieldAll_bareAll methods]
  | .expr value => by simp [Stmt.bare, Stmt.yield, Expr.yield_bare]
  | .function decl => by simp [Stmt.bare, Stmt.yield, FunDecl.yield_bare decl]
  | .branch cond yes none => by
      simp [Stmt.bare, Stmt.yield, Expr.yield_bare, Stmt.yield_bare yes]
  | .branch cond yes (some no) => by
      simp [Stmt.bare, Stmt.yield, Expr.yield_bare, Stmt.yield_bare yes, Stmt.yield_bare no]
  | .print value => by simp [Stmt.bare, Stmt.yield, Expr.yield_bare]
  | .ret _ none => rfl
  | .ret _ (some value) => by simp [Stmt.bare, Stmt.yield, Expr.yield_bare]
  | .varDecl name none => by simp [Stmt.bare, Stmt.yield]
  | .varDecl name (some init) => by simp [Stmt.bare, Stmt.yield, Expr.yield_bare]
  | .loop cond body => by simp [Stmt.bare, Stmt.yield, Expr.yield_bare, Stmt.yield_bare body]

theorem FunDecl.yield_bare : ∀ f : FunDecl, f.bare.yield = f.yield
  | .mk name params body => by
      simp [FunDecl.bare, FunDecl.yield, Stmt.yieldAll_bareAll body]

theorem Stmt.yieldAll_bareAll : ∀ ss : List Stmt, Stmt.yieldAll (Stmt.bareAll ss) = Stmt.yieldAll ss
  | [] => rfl
  | s :: ss => by
      rw [Stmt.bareAll, Stmt.yieldAll, Stmt.yieldAll, Stmt.yield_bare s, Stmt.yieldAll_bareAll ss]

theorem FunDecl.yieldAll_bareAll :
    ∀ fs : List FunDecl, FunDecl.yieldAll (FunDecl.bareAll fs) = FunDecl.yieldAll fs
  | [] => rfl
  | f :: fs => by
      rw [FunDecl.bareAll, FunDecl.yieldAll, FunDecl.yieldAll, FunDecl.yield_bare f,
        FunDecl.yieldAll_bareAll fs]

end

end Wandika
