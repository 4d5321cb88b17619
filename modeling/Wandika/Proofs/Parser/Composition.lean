import Wandika.Tree.Parser

/-!
# What rules are made of

Every rule is a sequence of actions on single tokens, each of which may depend on what the ones
before have given. A rule at a larger bound on the depth of rules makes the same sequence, and only
goes on where the smaller bound was reached.

* `Parser.outcome`: how an action ends, and the cursor it leaves;
* `Parser.Single`: the actions on single tokens;
* `Parser.Deepens`: one action is composed like another one, which may go on further;
* `Parser.Deepens.outcome_eq`: a larger bound changes no outcome but that the bound was reached;
* `Parser.Deepens.expressions`, `Parser.Deepens.rules`, `Parser.Deepens.statements`: the rules at
  two bounds;
* `Program.parse_eq`: a run of the parser.
-/

namespace Wandika

namespace Parser

variable {α β : Type}

/-- How the action ends at the cursor, and the cursor that it leaves. -/
def outcome (act : Parser α) (c : Cursor) : Except Failure α × Cursor :=
  match act c with
  | .ok a c' => (.ok a, c')
  | .error e c' => (.error e, c')

theorem outcome_of_ok {act : Parser α} {c c' : Cursor} {a : α} (h : act c = .ok a c') :
    outcome act c = (.ok a, c') := by
  unfold outcome
  rw [h]

theorem eq_error_of_outcome {act : Parser α} {c c' : Cursor} {f : Failure}
    (h : outcome act c = (.error f, c')) : act c = .error f c' := by
  unfold outcome at h
  cases hrun : act c with
  | ok a c₁ =>
    rw [hrun] at h
    cases h
  | error e c₁ =>
    rw [hrun] at h
    cases h
    rfl

theorem outcome_bind (act : Parser β) (next : β → Parser α) (c : Cursor) :
    outcome (act >>= next) c =
      match outcome act c with
      | (.ok b, c₁) => outcome (next b) c₁
      | (.error e, c₁) => (.error e, c₁) := by
  show outcome (EStateM.bind act next) c = _
  unfold outcome EStateM.bind
  cases act c with
  | ok b c₁ => rfl
  | error e c₁ => rfl

theorem outcome_get_bind (next : Cursor → Parser α) (c : Cursor) :
    outcome (get >>= next) c = outcome (next c) c := rfl

/-- An action that looks at the next token, takes it, numbers a node or ends. -/
inductive Single : ∀ {α : Type}, Parser α → Prop
  | pure {α : Type} (a : α) : Single (pure a)
  | throw {α : Type} (e : Failure) : Single (throw e : Parser α)
  | reject {α : Type} (cause : ParseCause) : Single (reject cause : Parser α)
  | sees (kind : Kind) : Single (sees kind)
  | atEnd : Single atEnd
  | freshId : Single freshId
  | acceptAny (kinds : List Kind) : Single (acceptAny kinds)
  | expect (kind : Kind) (cause : ParseCause) : Single (expect kind cause)

/-- A single action takes the next token, hands out a number or leaves the cursor as it was. -/
theorem Single.cursor_cases {act : Parser α} (h : Single act) (c : Cursor) :
    (outcome act c).2 = c ∨ (outcome act c).2 = c.advance ∨
      (outcome act c).2 = { c with nextId := c.nextId + 1 } := by
  cases h with
  | pure | throw | reject | sees | atEnd => exact Or.inl rfl
  | freshId => exact Or.inr (Or.inr rfl)
  | acceptAny kinds =>
    unfold outcome Parser.acceptAny
    by_cases hsees : kinds.any c.sees = true
    · rw [if_pos hsees]
      exact Or.inr (Or.inl rfl)
    · rw [if_neg hsees]
      exact Or.inl rfl
  | expect kind cause =>
    unfold outcome Parser.expect
    by_cases hsees : c.sees kind = true
    · rw [if_pos hsees]
      exact Or.inr (Or.inl rfl)
    · rw [if_neg hsees]
      exact Or.inl rfl

/-- The first action is composed of single ones, and the second one is composed alike, but may go on
where the first one has reached its bound. -/
inductive Deepens : ∀ {α : Type}, Parser α → Parser α → Prop
  | single {α : Type} {act : Parser α} (h : Single act) : Deepens act act
  | exhausted {α : Type} (act : Parser α) : Deepens exhausted act
  | bind {α β : Type} {act act' : Parser β} {next next' : β → Parser α} (h : Deepens act act')
      (hn : ∀ b, Deepens (next b) (next' b)) : Deepens (act >>= next) (act' >>= next')

namespace Deepens

/-- Where the bound was not reached, a larger one makes no difference. -/
theorem outcome_eq {act act' : Parser α} (h : Deepens act act') (c : Cursor) :
    (outcome act c).1 = .error .exhausted ∨ outcome act' c = outcome act c := by
  induction h generalizing c with
  | single => exact Or.inr rfl
  | exhausted => exact Or.inl rfl
  | @bind _ _ act act' next next' _ _ ih ihn =>
    rw [outcome_bind, outcome_bind]
    rcases ih c with hact | hact
    · left
      generalize outcome act c = o at hact
      obtain ⟨r, c₁⟩ := o
      cases hact
      rfl
    · rw [hact]
      obtain ⟨r, c₁⟩ := outcome act c
      cases r with
      | ok b => exact ihn b c₁
      | error e => exact Or.inr rfl

/-! ### Rules of composition -/

theorem pure (a : α) : Deepens (pure a) (pure a) := .single (.pure a)

theorem throw (e : Failure) : Deepens (throw e : Parser α) (throw e) := .single (.throw e)

theorem reject (cause : ParseCause) : Deepens (reject cause : Parser α) (reject cause) :=
  .single (.reject cause)

theorem accept (kind : Kind) : Deepens (accept kind) (accept kind) := .single (.acceptAny [kind])

theorem acceptAny (kinds : List Kind) : Deepens (acceptAny kinds) (acceptAny kinds) :=
  .single (.acceptAny kinds)

theorem expect (kind : Kind) (cause : ParseCause) :
    Deepens (expect kind cause) (expect kind cause) :=
  .single (.expect kind cause)

/-- An action that takes a token or not is followed by one for either outcome. -/
theorem option {act act' : Parser (Option α)} {next next' : Option α → Parser β}
    (h : Deepens act act') (hs : ∀ a, Deepens (next (some a)) (next' (some a)))
    (hn : Deepens (next none) (next' none)) : Deepens (act >>= next) (act' >>= next') :=
  h.bind fun
    | some a => hs a
    | none => hn

theorem ite {p : Prop} [Decidable p] {act act' other other' : Parser α} (h : Deepens act act')
    (h' : Deepens other other') :
    Deepens (if p then act else other) (if p then act' else other') := by
  by_cases hp : p
  · rw [if_pos hp, if_pos hp]
    exact h
  · rw [if_neg hp, if_neg hp]
    exact h'

theorem literal? : Deepens literal? literal? := by
  refine (acceptAny _).option (fun t => ?_) (pure none)
  dsimp only
  split
  · exact pure _
  · exact pure _
  · exact pure _
  · exact pure _
  · exact pure _
  · exact throw _

/-! ### Expressions -/

/-- The rules for expressions at the bound `m` go on where those at the bound `n` stop. -/
structure Expressions (n m : Nat) : Prop where
  expression : Deepens (expression n) (expression m)
  ternary : Deepens (ternary n) (ternary m)
  level : ∀ l, Deepens (level n l) (level m l)
  operand : ∀ l, Deepens (operand n l) (operand m l)
  chain : ∀ l lhs, Deepens (chain n l lhs) (chain m l lhs)
  unary : Deepens (unary n) (unary m)
  suffixes : ∀ e, Deepens (suffixes n e) (suffixes m e)
  arguments : ∀ count, Deepens (arguments n count) (arguments m count)
  primary : Deepens (primary n) (primary m)

theorem Expressions.zero (m : Nat) : Expressions 0 m where
  expression := .exhausted _
  ternary := .exhausted _
  level _ := .exhausted _
  operand _ := .exhausted _
  chain _ _ := .exhausted _
  unary := .exhausted _
  suffixes _ := .exhausted _
  arguments _ := .exhausted _
  primary := .exhausted _

theorem Expressions.succ {n m : Nat} (ih : Expressions n m) : Expressions (n + 1) (m + 1) where
  expression := by
    rw [Parser.expression, Parser.expression]
    refine ih.ternary.bind fun target => (accept _).option (fun equals => ?_) (pure target)
    refine ih.expression.bind fun value => ?_
    cases assignment? target value with
    | some e => exact pure e
    | none => exact throw _
  ternary := by
    rw [Parser.ternary, Parser.ternary]
    refine (ih.level .or).bind fun cond => (accept _).option (fun question => ?_) (pure cond)
    refine ih.expression.bind fun yes => (accept _).option (fun _ => ?_) (pure _)
    exact ih.expression.bind fun no => pure _
  level l := by
    rw [Parser.level, Parser.level]
    exact (ih.operand l).bind fun lhs => ih.chain l lhs
  operand l := by
    rw [Parser.operand, Parser.operand]
    split
    · exact ih.level _
    · exact ih.unary
  chain l lhs := by
    rw [Parser.chain, Parser.chain]
    refine (acceptAny _).option (fun op => ?_) (pure lhs)
    exact (ih.operand l).bind fun rhs => ih.chain l _
  unary := by
    rw [Parser.unary, Parser.unary]
    refine (acceptAny _).option (fun op => ?_) ?_
    · exact ih.unary.bind fun e => pure _
    · exact ih.primary.bind fun e => ih.suffixes e
  suffixes e := by
    rw [Parser.suffixes, Parser.suffixes]
    refine (accept _).option (fun _ => ?_) ?_
    · refine (single (.sees _)).bind fun closed => ite ?_ ((ih.arguments 0).bind fun args => ?_)
      · exact (pure []).bind fun args => (expect _ _).bind fun paren => ih.suffixes _
      · exact (expect _ _).bind fun paren => ih.suffixes _
    · refine (accept _).option (fun _ => ?_) (pure e)
      exact (expect _ _).bind fun name => ih.suffixes _
  arguments count := by
    rw [Parser.arguments, Parser.arguments]
    refine ite (reject _) (ih.expression.bind fun arg => ?_)
    refine (accept _).option (fun _ => ?_) (pure [arg])
    exact (ih.arguments _).bind fun rest => pure _
  primary := by
    rw [Parser.primary, Parser.primary]
    refine literal?.option (fun e => pure e) ((accept _).option (fun name => ?_) ?_)
    · exact (single .freshId).bind fun id => pure _
    · refine (accept _).option (fun _ => ?_) (reject _)
      exact ih.expression.bind fun inner => (expect _ _).bind fun _ => pure _

theorem expressions {n m : Nat} (h : n ≤ m) : Expressions n m := by
  induction n generalizing m with
  | zero => exact .zero m
  | succ n ih =>
    obtain ⟨m, rfl⟩ : ∃ k, m = k + 1 := ⟨m - 1, by omega⟩
    exact (ih (by omega)).succ

/-! ### Statements -/

theorem parameters {n m : Nat} (h : n ≤ m) (count : Nat) :
    Deepens (parameters n count) (parameters m count) := by
  induction n generalizing m count with
  | zero => exact .exhausted _
  | succ n ih =>
    obtain ⟨m, rfl⟩ : ∃ k, m = k + 1 := ⟨m - 1, by omega⟩
    rw [Parser.parameters, Parser.parameters]
    refine ite (reject _) ((expect _ _).bind fun param => ?_)
    refine (accept _).option (fun _ => ?_) (pure [param])
    exact (ih (by omega) _).bind fun rest => pure _

section Simple

variable {n m : Nat} (h : n ≤ m)

include h

theorem varDecl : Deepens (varDecl n) (varDecl m) := by
  refine (expect _ _).bind fun name => (accept _).option (fun _ => ?_) ?_
  · exact (expressions h).expression.bind fun init => (expect _ _).bind fun _ => pure _
  · exact (expect _ _).bind fun _ => pure _

theorem printStmt : Deepens (printStmt n) (printStmt m) :=
  (expressions h).expression.bind fun _ => (expect _ _).bind fun _ => pure _

theorem returnStmt (keyword : Token) : Deepens (returnStmt n keyword) (returnStmt m keyword) := by
  refine (single (.sees _)).bind fun bare => ite ?_ ?_
  · exact (expect _ _).bind fun _ => pure _
  · exact (expressions h).expression.bind fun value => (expect _ _).bind fun _ => pure _

theorem exprStmt : Deepens (exprStmt n) (exprStmt m) :=
  (expressions h).expression.bind fun _ => (expect _ _).bind fun _ => pure _

end Simple

/-- The rules for statements at the bound `m` go on where those at the bound `n` stop. -/
structure Statements (n m : Nat) : Prop where
  declaration : Deepens (declaration n) (declaration m)
  statement : Deepens (statement n) (statement m)
  block : Deepens (block n) (block m)
  ifStmt : Deepens (ifStmt n) (ifStmt m)
  whileStmt : ∀ keyword, Deepens (whileStmt n keyword) (whileStmt m keyword)
  function : ∀ kind, Deepens (function n kind) (function m kind)
  classDecl : Deepens (classDecl n) (classDecl m)
  methods : Deepens (methods n) (methods m)

theorem Statements.zero (m : Nat) : Statements 0 m where
  declaration := .exhausted _
  statement := .exhausted _
  block := .exhausted _
  ifStmt := .exhausted _
  whileStmt _ := .exhausted _
  function _ := .exhausted _
  classDecl := .exhausted _
  methods := .exhausted _

theorem Statements.succ {n m : Nat} (h : n ≤ m) (ih : Statements n m) :
    Statements (n + 1) (m + 1) where
  declaration := by
    rw [Parser.declaration, Parser.declaration]
    exact (accept _).option (fun _ => varDecl h) ih.statement
  statement := by
    rw [Parser.statement, Parser.statement]
    refine (acceptAny _).option (fun t => ?_) (exprStmt h)
    dsimp only
    split
    · exact printStmt h
    · exact ih.ifStmt
    · exact ih.whileStmt t
    · exact (ih.function .function).bind fun decl => pure _
    · exact ih.classDecl
    · exact returnStmt h t
    · exact ih.block.bind fun body => pure _
  block := by
    rw [Parser.block, Parser.block]
    refine (single (.sees _)).bind fun closed => (single .atEnd).bind fun last => ite ?_ ?_
    · exact (expect _ _).bind fun _ => pure _
    · exact ih.declaration.bind fun first => ih.block.bind fun rest => pure _
  ifStmt := by
    rw [Parser.ifStmt, Parser.ifStmt]
    refine (expect _ _).bind fun _ => (expressions h).expression.bind fun cond => ?_
    refine (expect _ _).bind fun _ => ih.statement.bind fun yes => ?_
    refine (accept _).option (fun _ => ?_) (pure _)
    exact ih.statement.bind fun no => pure _
  whileStmt keyword := by
    rw [Parser.whileStmt, Parser.whileStmt]
    refine (expect _ _).bind fun _ => (expressions h).expression.bind fun cond => ?_
    exact (expect _ _).bind fun _ => ih.statement.bind fun body => pure _
  function kind := by
    rw [Parser.function, Parser.function]
    refine (expect _ _).bind fun name => (expect _ _).bind fun _ => ?_
    refine (single (.sees _)).bind fun closed => ?_
    refine ite ((pure []).bind fun params => ?_) ((parameters h 0).bind fun params => ?_)
    all_goals
      refine (expect _ _).bind fun _ => (expect _ _).bind fun _ => ?_
      exact ih.block.bind fun body => pure _
  classDecl := by
    rw [Parser.classDecl, Parser.classDecl]
    refine (expect _ _).bind fun name => (expect _ _).bind fun _ => ?_
    exact ih.methods.bind fun methods => pure _
  methods := by
    rw [Parser.methods, Parser.methods]
    refine (single (.sees _)).bind fun closed => (single .atEnd).bind fun last => ite ?_ ?_
    · exact (expect _ _).bind fun _ => pure _
    · exact (ih.function .method).bind fun first => ih.methods.bind fun rest => pure _

theorem rules {n m : Nat} (h : n ≤ m) : Statements n m := by
  induction n generalizing m with
  | zero => exact .zero m
  | succ n ih =>
    obtain ⟨m, rfl⟩ : ∃ k, m = k + 1 := ⟨m - 1, by omega⟩
    exact (ih (by omega)).succ (by omega)

theorem statements {n m : Nat} (h : n ≤ m) : Deepens (statements n) (statements m) := by
  induction n generalizing m with
  | zero => exact .exhausted _
  | succ n ih =>
    obtain ⟨m, rfl⟩ : ∃ k, m = k + 1 := ⟨m - 1, by omega⟩
    rw [Parser.statements, Parser.statements]
    refine (single .atEnd).bind fun last => ite (pure []) ?_
    exact (rules (by omega)).declaration.bind fun first => (ih (by omega)).bind fun rest => pure _

end Deepens

end Parser

/-- A run of the parser is a run of the rule for statements at the bound that suits the cursor. -/
theorem Program.parse_eq (c : Cursor) :
    Program.parse c =
      ((Parser.outcome (Parser.statements (Parser.depthFor c)) c).1.map fun ss =>
          ⟨ss, (Parser.outcome (Parser.statements (Parser.depthFor c)) c).2.nextId⟩,
        (Parser.outcome (Parser.statements (Parser.depthFor c)) c).2) := by
  have hparse : Program.parse c = Parser.outcome Parser.program c := by
    unfold Program.parse Parser.outcome
    cases Parser.program c with
    | ok p c' => rfl
    | error e c' => rfl
  rw [hparse]
  unfold Parser.program
  rw [Parser.outcome_get_bind, Parser.outcome_bind]
  generalize Parser.outcome (Parser.statements (Parser.depthFor c)) c = o
  obtain ⟨r, c'⟩ := o
  cases r with
  | ok ss => rfl
  | error e => rfl

end Wandika
