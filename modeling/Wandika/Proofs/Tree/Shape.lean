import Wandika.Proofs.Tree.Yield

/-!
# The shape that precedence gives to trees

* `Level.rank`, `Expr.rank`: how tightly an operator and an expression bind;
* `Expr.dangles`, `Stmt.dangles`: whether a tree ends in a condition that still lacks its second
  branch, so that a following `:` or `else` would belong to it;
* `Expr.Shaped`, `Stmt.Shaped`, `FunDecl.Shaped`: operands bind tightly enough for the place they
  stand in, a second branch never follows a first one that dangles, and no list of parameters or
  arguments is too long.
-/

namespace Wandika

/-- How tightly the operators of a level bind. -/
def Level.rank : Level → Nat
  | .or => 1
  | .and => 2
  | .equality => 3
  | .comparison => 4
  | .term => 5
  | .factor => 6

/-- All levels, from the loosest to the tightest. -/
def Level.all : List Level := [.or, .and, .equality, .comparison, .term, .factor]

/-- How tightly an operator binds; what is no binary operator does not bind at all. -/
def Kind.rank (k : Kind) : Nat :=
  ((Level.all.find? (k ∈ ·.operators)).map Level.rank).getD 0

/-- The rank of negations. -/
def unaryRank : Nat := 7

/-- The rank of calls, property reads and everything that is closed in itself. -/
def callRank : Nat := 8

/-- How tightly an expression binds. Assignments and conditions are the loosest. -/
def Expr.rank : Expr → Nat
  | .assign _ _ _ | .set _ _ _ | .ternary _ _ _ _ => 0
  | .binary op _ _ | .logical op _ _ => op.kind.rank
  | .unary _ _ => unaryRank
  | .call _ _ _ | .get _ _ | .group _ | .literal _ | .variable _ _ => callRank

/-- An operator of the level between operands that bind tightly enough: the left one may be of the
same level, the right one may not. -/
structure Level.Joins (l : Level) (op : Token) (lhs rhs : Expr) : Prop where
  op_mem : op.kind ∈ l.operators
  rank_le : l.rank ≤ lhs.rank
  rank_lt : l.rank < rhs.rank

/-- The data that a literal of a source text can hold. -/
def Datum.fromText : Datum → Bool
  | .nil | .number _ | .text _ | .bool _ => true
  | _ => false

/-- Whether an expression ends in a condition without a second branch. -/
def Expr.dangles : Expr → Bool
  | .assign _ _ value => value.dangles
  | .binary _ _ rhs => rhs.dangles
  | .logical _ _ rhs => rhs.dangles
  | .set _ _ value => value.dangles
  | .ternary _ _ _ none => true
  | .ternary _ _ _ (some no) => no.dangles
  | .unary _ operand => operand.dangles
  | .call _ _ _ | .get _ _ | .group _ | .literal _ | .variable _ _ => false

/-- Whether a statement ends in a condition without a second branch. -/
def Stmt.dangles : Stmt → Bool
  | .branch _ _ none => true
  | .branch _ _ (some no) => no.dangles
  | .loop _ body => body.dangles
  | _ => false

mutual

/-- The shape of an expression. -/
def Expr.Shaped : Expr → Prop
  | .assign _ name value => name.kind = .identifier ∧ value.Shaped
  | .binary op lhs rhs =>
      (∃ l ∈ [Level.equality, .comparison, .term, .factor], l.Joins op lhs rhs) ∧
        lhs.Shaped ∧ rhs.Shaped
  | .call callee _ args =>
      callee.rank = callRank ∧ callee.Shaped ∧ Expr.ShapedAll args ∧ args.length ≤ maxArguments
  | .get object name => object.rank = callRank ∧ object.Shaped ∧ name.kind = .identifier
  | .group inner => inner.Shaped
  | .literal value => value.fromText = true
  | .logical op lhs rhs =>
      (∃ l ∈ [Level.or, .and], l.Joins op lhs rhs) ∧ lhs.Shaped ∧ rhs.Shaped
  | .set object name value =>
      object.rank = callRank ∧ object.Shaped ∧ name.kind = .identifier ∧ value.Shaped
  | .ternary cond _ yes none => 0 < cond.rank ∧ cond.Shaped ∧ yes.Shaped
  | .ternary cond _ yes (some no) =>
      0 < cond.rank ∧ cond.Shaped ∧ yes.Shaped ∧ yes.dangles = false ∧ no.Shaped
  | .unary op operand =>
      op.kind ∈ [Kind.bang, .minus] ∧ unaryRank ≤ operand.rank ∧ operand.Shaped
  | .variable _ name => name.kind = .identifier

/-- The shape of several expressions. -/
def Expr.ShapedAll : List Expr → Prop
  | [] => True
  | e :: es => e.Shaped ∧ Expr.ShapedAll es

end

/-- Whether a statement is a variable declaration, which is no branch and no body of a loop. -/
def Stmt.isVarDecl : Stmt → Bool
  | .varDecl _ _ => true
  | _ => false

mutual

/-- The shape of a statement. -/
def Stmt.Shaped : Stmt → Prop
  | .block body => Stmt.ShapedAll body
  | .classDecl name methods => name.kind = .identifier ∧ FunDecl.ShapedAll methods
  | .expr value => value.Shaped
  | .function decl => decl.Shaped
  | .branch cond yes none => cond.Shaped ∧ yes.Shaped ∧ yes.isVarDecl = false
  | .branch cond yes (some no) =>
      cond.Shaped ∧ yes.Shaped ∧ yes.isVarDecl = false ∧ yes.dangles = false ∧
        no.Shaped ∧ no.isVarDecl = false
  | .print value => value.Shaped
  | .ret _ none => True
  | .ret _ (some value) => value.Shaped
  | .varDecl name none => name.kind = .identifier
  | .varDecl name (some init) => name.kind = .identifier ∧ init.Shaped
  | .loop cond body => cond.Shaped ∧ body.Shaped ∧ body.isVarDecl = false

/-- The shape of a function. -/
def FunDecl.Shaped : FunDecl → Prop
  | .mk name params body =>
      name.kind = .identifier ∧ (∀ p ∈ params, p.kind = .identifier) ∧
        params.length ≤ maxArguments ∧ Stmt.ShapedAll body

/-- The shape of several statements. -/
def Stmt.ShapedAll : List Stmt → Prop
  | [] => True
  | s :: ss => s.Shaped ∧ Stmt.ShapedAll ss

/-- The shape of several functions. -/
def FunDecl.ShapedAll : List FunDecl → Prop
  | [] => True
  | f :: fs => f.Shaped ∧ FunDecl.ShapedAll fs

end

/-! ### Ranks -/

theorem Kind.rank_of_mem {l : Level} {k : Kind} (h : k ∈ l.operators) : k.rank = l.rank := by
  cases l <;> simp only [Level.operators, List.mem_cons, List.not_mem_nil, or_false] at h <;>
    rcases h with rfl | rfl | rfl | rfl <;> decide

theorem Kind.rank_lt_unaryRank (k : Kind) : k.rank < unaryRank := by
  unfold Kind.rank
  cases Level.all.find? (k ∈ ·.operators) with
  | none => decide
  | some l => cases l <;> decide

/-- Nothing binds more tightly than a call. -/
theorem Expr.rank_eq_callRank {e : Expr} (h : callRank ≤ e.rank) : e.rank = callRank := by
  have hk := fun k => Kind.rank_lt_unaryRank k
  cases e <;> simp only [Expr.rank, callRank, unaryRank] at *
  case binary op _ _ | logical op _ _ => have := hk op.kind; omega
  all_goals omega

theorem Level.rank_pos (l : Level) : 0 < l.rank := by cases l <;> decide

theorem Level.rank_lt_unaryRank (l : Level) : l.rank < unaryRank := by cases l <;> decide

/-- The next tighter level binds one step more tightly. -/
theorem Level.rank_of_tighter? {l l' : Level} (h : l.tighter? = some l') :
    l'.rank = l.rank + 1 := by
  cases l <;> cases h <;> rfl

/-- Below the tightest level stand the negations. -/
theorem Level.rank_of_tighter?_none {l : Level} (h : l.tighter? = none) :
    unaryRank = l.rank + 1 := by
  cases l <;> cases h
  rfl

/-- A node of a level has the rank of the level. -/
theorem Level.Joins.rank_node {l : Level} {op : Token} {lhs rhs : Expr}
    (h : l.Joins op lhs rhs) : (l.node op lhs rhs).rank = l.rank := by
  cases l <;> exact Kind.rank_of_mem h.op_mem

/-- A node of a level has a shape if its operands have one. -/
theorem Level.Joins.shaped_node {l : Level} {op : Token} {lhs rhs : Expr}
    (h : l.Joins op lhs rhs) (hl : lhs.Shaped) (hr : rhs.Shaped) : (l.node op lhs rhs).Shaped := by
  cases l <;> exact ⟨⟨_, by simp, h⟩, hl, hr⟩

/-- Only assignments and conditions can dangle. -/
theorem Expr.dangles_of_rank_pos : ∀ {e : Expr}, e.Shaped → 0 < e.rank → e.dangles = false
  | .assign _ _ _, _, hr | .set _ _ _, _, hr | .ternary _ _ _ _, _, hr => absurd hr (lt_irrefl 0)
  | .binary _ _ rhs, ⟨⟨_, _, hj⟩, _, hs⟩, _ | .logical _ _ rhs, ⟨⟨_, _, hj⟩, _, hs⟩, _ =>
      Expr.dangles_of_rank_pos (e := rhs) hs (by have := hj.rank_lt; omega)
  | .unary _ operand, ⟨_, ho, hs⟩, _ =>
      Expr.dangles_of_rank_pos (e := operand) hs (by simp only [unaryRank] at ho; omega)
  | .call _ _ _, _, _ | .get _ _, _, _ | .group _, _, _ | .literal _, _, _ | .variable _ _, _, _ =>
      rfl

end Wandika
