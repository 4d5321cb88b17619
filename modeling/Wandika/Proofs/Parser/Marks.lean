import Wandika.Proofs.Parser.Outcome

/-!
# The marks that a tree keeps

A call keeps its closing parenthesis, a condition its question mark and a return statement its
keyword, so that errors can be placed.

* `Expr.Marked`, `Stmt.Marked`, `FunDecl.Marked`: a tree keeps these tokens, and they are of the
  right kinds;
* `Parser.Gives`: what an action gives has a property;
* `Parser.marked_program`: the parser gives marked trees.
-/

namespace Wandika

/-- The token is there and of the kind. -/
def IsMark (kind : Kind) (t? : Option Token) : Prop := ∃ t, t? = some t ∧ t.kind = kind

mutual

/-- The marks of an expression. -/
def Expr.Marked : Expr → Prop
  | .assign _ _ value => value.Marked
  | .binary _ lhs rhs => lhs.Marked ∧ rhs.Marked
  | .call callee paren args => IsMark .rightParen paren ∧ callee.Marked ∧ Expr.MarkedAll args
  | .get object _ => object.Marked
  | .group inner => inner.Marked
  | .literal _ => True
  | .logical _ lhs rhs => lhs.Marked ∧ rhs.Marked
  | .set object _ value => object.Marked ∧ value.Marked
  | .ternary cond question yes none => IsMark .question question ∧ cond.Marked ∧ yes.Marked
  | .ternary cond question yes (some no) =>
      IsMark .question question ∧ cond.Marked ∧ yes.Marked ∧ no.Marked
  | .unary _ operand => operand.Marked
  | .variable _ _ => True

/-- The marks of several expressions. -/
def Expr.MarkedAll : List Expr → Prop
  | [] => True
  | e :: es => e.Marked ∧ Expr.MarkedAll es

end

mutual

/-- The marks of a statement. -/
def Stmt.Marked : Stmt → Prop
  | .block body => Stmt.MarkedAll body
  | .classDecl _ methods => FunDecl.MarkedAll methods
  | .expr value => value.Marked
  | .function decl => decl.Marked
  | .branch cond yes none => cond.Marked ∧ yes.Marked
  | .branch cond yes (some no) => cond.Marked ∧ yes.Marked ∧ no.Marked
  | .print value => value.Marked
  | .ret keyword none => IsMark .returnWord keyword
  | .ret keyword (some value) => IsMark .returnWord keyword ∧ value.Marked
  | .varDecl _ none => True
  | .varDecl _ (some init) => init.Marked
  | .loop cond body => cond.Marked ∧ body.Marked

/-- The marks of a function. -/
def FunDecl.Marked : FunDecl → Prop
  | .mk _ _ body => Stmt.MarkedAll body

/-- The marks of several statements. -/
def Stmt.MarkedAll : List Stmt → Prop
  | [] => True
  | s :: ss => s.Marked ∧ Stmt.MarkedAll ss

/-- The marks of several functions. -/
def FunDecl.MarkedAll : List FunDecl → Prop
  | [] => True
  | f :: fs => f.Marked ∧ FunDecl.MarkedAll fs

end

namespace Parser

variable {α β : Type}

/-- Whatever the action gives has the property. -/
def Gives (act : Parser α) (good : α → Prop) : Prop :=
  ∀ c, Ensures act c (fun a _ => good a) fun _ => True

namespace Gives

variable {good : α → Prop}

theorem pure {a : α} (h : good a) : Gives (pure a) good := fun _ => .pure h

theorem throw (e : Failure) : Gives (throw e : Parser α) good := fun _ => .throw trivial

theorem exhausted : Gives (exhausted : Parser α) good := fun _ => .exhausted trivial

theorem reject (cause : ParseCause) : Gives (reject cause : Parser α) good :=
  fun _ => .reject trivial

theorem bind {act : Parser β} {next : β → Parser α} {mid : β → Prop} (h : Gives act mid)
    (hn : ∀ b, mid b → Gives (next b) good) : Gives (act >>= next) good :=
  fun c => (h c).bind (fun _ _ => trivial) fun b c₁ hb => hn b hb c₁

theorem any (act : Parser α) : Gives act fun _ => True := fun c => by
  unfold Ensures
  split <;> trivial

theorem ite {p : Prop} [Decidable p] {act act' : Parser α} (h : Gives act good)
    (h' : Gives act' good) : Gives (if p then act else act') good := by
  split_ifs
  · exact h
  · exact h'

theorem sees {kind : Kind} {next : Bool → Parser α} (h : ∀ b, Gives (next b) good) :
    Gives (sees kind >>= next) good :=
  fun c => .sees (h _ c)

theorem atEnd {next : Bool → Parser α} (h : ∀ b, Gives (next b) good) :
    Gives (atEnd >>= next) good :=
  fun c => .atEnd (h _ c)

theorem freshId {next : Nat → Parser α} (h : ∀ n, Gives (next n) good) :
    Gives (freshId >>= next) good :=
  fun _ => .freshId (h _ _)

theorem acceptAny {kinds : List Kind} {next : Option Token → Parser α}
    (hs : ∀ t, t.kind ∈ kinds → Gives (next (some t)) good) (hn : Gives (next none) good) :
    Gives (acceptAny kinds >>= next) good :=
  fun c => .acceptAny (fun t c' _ hk => hs t hk c') fun _ => hn c

theorem accept {kind : Kind} {next : Option Token → Parser α}
    (hs : ∀ t, t.kind = kind → Gives (next (some t)) good) (hn : Gives (next none) good) :
    Gives (accept kind >>= next) good :=
  fun c => .accept (fun t c' _ hk => hs t hk c') fun _ => hn c

theorem expect {kind : Kind} {cause : ParseCause} {next : Token → Parser α}
    (hs : ∀ t, t.kind = kind → Gives (next t) good) : Gives (expect kind cause >>= next) good :=
  fun _ => .expect (fun t c' _ hk => hs t hk c') fun _ => trivial

theorem literal? : Gives literal? fun e? => ∀ e ∈ e?, e.Marked := by
  refine acceptAny (fun t _ => ?_) (pure (by simp))
  have hliteral : ∀ d, Gives (Pure.pure (some (Expr.literal d))) fun e? => ∀ e ∈ e?, e.Marked :=
    fun d => pure fun e he => by
      cases he
      trivial
  dsimp only
  split
  · exact hliteral _
  · exact hliteral _
  · exact hliteral _
  · exact hliteral _
  · exact hliteral _
  · exact throw _

/-! ### Expressions -/

/-- The rules for expressions give marked trees at the bound `n`. -/
structure Expressions (n : Nat) : Prop where
  expression : Gives (expression n) Expr.Marked
  ternary : Gives (ternary n) Expr.Marked
  level : ∀ l, Gives (level n l) Expr.Marked
  operand : ∀ l, Gives (operand n l) Expr.Marked
  chain : ∀ l {lhs : Expr}, lhs.Marked → Gives (chain n l lhs) Expr.Marked
  unary : Gives (unary n) Expr.Marked
  suffixes : ∀ {e : Expr}, e.Marked → Gives (suffixes n e) Expr.Marked
  arguments : ∀ count, Gives (arguments n count) Expr.MarkedAll
  primary : Gives (primary n) Expr.Marked

theorem marked_assignment? {target value e : Expr} (h : assignment? target value = some e)
    (ht : target.Marked) (hv : value.Marked) : e.Marked := by
  unfold assignment? at h
  split at h
  · cases h
    exact hv
  · cases h
    exact ⟨ht, hv⟩
  · cases h

theorem marked_node {l : Level} {op : Token} {lhs rhs : Expr} (hl : lhs.Marked)
    (hr : rhs.Marked) : (l.node op lhs rhs).Marked := by
  cases l <;> exact ⟨hl, hr⟩

theorem Expressions.succ {n : Nat} (ih : Expressions n) : Expressions (n + 1) where
  expression := by
    rw [Parser.expression]
    refine ih.ternary.bind fun target ht => accept (fun equals _ => ?_) (pure ht)
    refine ih.expression.bind fun value hv => ?_
    cases ha : assignment? target value with
    | some e => exact pure (marked_assignment? ha ht hv)
    | none => exact throw _
  ternary := by
    rw [Parser.ternary]
    refine (ih.level .or).bind fun cond hc => accept (fun question hq => ?_) (pure hc)
    refine ih.expression.bind fun yes hy => accept (fun _ _ => ?_) (pure ⟨⟨_, rfl, hq⟩, hc, hy⟩)
    exact ih.expression.bind fun no hn => pure ⟨⟨_, rfl, hq⟩, hc, hy, hn⟩
  level l := by
    rw [Parser.level]
    exact (ih.operand l).bind fun lhs hl => ih.chain l hl
  operand l := by
    rw [Parser.operand]
    split
    · exact ih.level _
    · exact ih.unary
  chain l lhs hl := by
    rw [Parser.chain]
    refine acceptAny (fun op _ => ?_) (pure hl)
    exact (ih.operand l).bind fun rhs hr => ih.chain l (marked_node hl hr)
  unary := by
    rw [Parser.unary]
    refine acceptAny (fun op _ => ?_) ?_
    · exact ih.unary.bind fun e he => pure he
    · exact ih.primary.bind fun e he => ih.suffixes he
  suffixes := fun {e} he => by
    rw [Parser.suffixes]
    refine accept (fun _ _ => sees fun closed => ?_) ?_
    · refine ite ?_ ((ih.arguments 0).bind fun args ha => ?_)
      · exact expect fun paren hp => ih.suffixes ⟨⟨_, rfl, hp⟩, he, trivial⟩
      · exact expect fun paren hp => ih.suffixes ⟨⟨_, rfl, hp⟩, he, ha⟩
    · refine accept (fun _ _ => ?_) (pure he)
      exact expect fun name _ => ih.suffixes he
  arguments count := by
    rw [Parser.arguments]
    refine ite (reject _) (ih.expression.bind fun arg ha => ?_)
    refine accept (fun _ _ => ?_) (pure ⟨ha, trivial⟩)
    exact (ih.arguments _).bind fun rest hr => pure ⟨ha, hr⟩
  primary := by
    rw [Parser.primary]
    refine literal?.bind fun
      | some e, he => pure (he e rfl)
      | none, _ => accept (fun name _ => ?_) (accept (fun _ _ => ?_) (reject _))
    · exact freshId fun id => pure trivial
    · exact ih.expression.bind fun inner hi => expect fun _ _ => pure hi

theorem expressionRules : ∀ n : Nat, Expressions n
  | 0 => ⟨exhausted, exhausted, fun _ => exhausted, fun _ => exhausted, fun _ _ _ => exhausted,
      exhausted, fun _ => exhausted, fun _ => exhausted, exhausted⟩
  | n + 1 => (expressionRules n).succ

/-! ### Statements -/

theorem varDecl (n : Nat) : Gives (varDecl n) Stmt.Marked := by
  refine expect fun name _ => accept (fun _ _ => ?_) (expect fun _ _ => pure trivial)
  exact (expressionRules n).expression.bind fun init hi => expect fun _ _ => pure hi

theorem printStmt (n : Nat) : Gives (printStmt n) Stmt.Marked :=
  (expressionRules n).expression.bind fun _ hv => expect fun _ _ => pure hv

theorem returnStmt (n : Nat) {keyword : Token} (hk : keyword.kind = .returnWord) :
    Gives (returnStmt n keyword) Stmt.Marked := by
  refine sees fun bare => ite (expect fun _ _ => pure ⟨_, rfl, hk⟩) ?_
  exact (expressionRules n).expression.bind fun value hv => expect fun _ _ =>
    pure ⟨⟨_, rfl, hk⟩, hv⟩

theorem exprStmt (n : Nat) : Gives (exprStmt n) Stmt.Marked :=
  (expressionRules n).expression.bind fun _ hv => expect fun _ _ => pure hv

/-- The rules for statements give marked trees at the bound `n`. -/
structure Statements (n : Nat) : Prop where
  declaration : Gives (declaration n) Stmt.Marked
  statement : Gives (statement n) Stmt.Marked
  block : Gives (block n) Stmt.MarkedAll
  ifStmt : Gives (ifStmt n) Stmt.Marked
  whileStmt : ∀ keyword, Gives (whileStmt n keyword) Stmt.Marked
  function : ∀ kind, Gives (function n kind) FunDecl.Marked
  classDecl : Gives (classDecl n) Stmt.Marked
  methods : Gives (methods n) FunDecl.MarkedAll

theorem Statements.succ {n : Nat} (ih : Statements n) : Statements (n + 1) where
  declaration := by
    rw [Parser.declaration]
    exact accept (fun _ _ => varDecl n) ih.statement
  statement := by
    rw [Parser.statement]
    refine acceptAny (fun t _ => ?_) (exprStmt n)
    dsimp only
    split
    · exact printStmt n
    · exact ih.ifStmt
    · exact ih.whileStmt t
    · exact (ih.function .function).bind fun decl hd => pure hd
    · exact ih.classDecl
    · exact returnStmt n ‹_›
    · exact ih.block.bind fun body hb => pure hb
  block := by
    rw [Parser.block]
    refine sees fun closed => atEnd fun last => ite (expect fun _ _ => pure trivial) ?_
    exact ih.declaration.bind fun first hf => ih.block.bind fun rest hr => pure ⟨hf, hr⟩
  ifStmt := by
    rw [Parser.ifStmt]
    refine expect fun _ _ => (expressionRules n).expression.bind fun cond hc => ?_
    refine expect fun _ _ => ih.statement.bind fun yes hy => accept (fun _ _ => ?_) (pure ⟨hc, hy⟩)
    exact ih.statement.bind fun no hn => pure ⟨hc, hy, hn⟩
  whileStmt keyword := by
    rw [Parser.whileStmt]
    refine expect fun _ _ => (expressionRules n).expression.bind fun cond hc => ?_
    exact expect fun _ _ => ih.statement.bind fun body hb => pure ⟨hc, hb⟩
  function kind := by
    rw [Parser.function]
    refine expect fun name _ => expect fun _ _ => sees fun closed => ?_
    refine ite ?_ ((any _).bind fun params _ => ?_)
    all_goals exact expect fun _ _ => expect fun _ _ => ih.block.bind fun body hb => pure hb
  classDecl := by
    rw [Parser.classDecl]
    exact expect fun name _ => expect fun _ _ => ih.methods.bind fun methods hm => pure hm
  methods := by
    rw [Parser.methods]
    refine sees fun closed => atEnd fun last => ite (expect fun _ _ => pure trivial) ?_
    exact (ih.function .method).bind fun first hf => ih.methods.bind fun rest hr => pure ⟨hf, hr⟩

theorem statementRules : ∀ n : Nat, Statements n
  | 0 => ⟨exhausted, exhausted, exhausted, exhausted, fun _ => exhausted, fun _ => exhausted,
      exhausted, exhausted⟩
  | n + 1 => (statementRules n).succ

theorem statements : ∀ n : Nat, Gives (statements n) Stmt.MarkedAll
  | 0 => exhausted
  | n + 1 => by
      rw [Parser.statements]
      refine atEnd fun last => ite (pure trivial) ?_
      exact (statementRules n).declaration.bind fun first hf => (statements n).bind fun rest hr =>
        pure ⟨hf, hr⟩

end Gives

/-- The parser gives marked trees. -/
theorem marked_program {c c' : Cursor} {p : Program} (h : program c = .ok p c') :
    Stmt.MarkedAll p.stmts := by
  have hgives : Ensures program c (fun p _ => Stmt.MarkedAll p.stmts) fun _ => True := by
    unfold program
    refine Ensures.get_bind ((Gives.statements _ c).bind (fun _ _ => trivial) fun stmts c₁ hs => ?_)
    exact Ensures.get_bind (Ensures.pure hs)
  unfold Ensures at hgives
  rwa [h] at hgives

end Parser

end Wandika
