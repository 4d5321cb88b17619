import Wandika.Proofs.Tree.Grammar

/-!
# Trees that have a shape are derivable

The kinds of the signs of a tree form a word of the grammar as soon as the tree has a shape, by
recursion on the tree: an expression of a rank is derivable from the rule of that rank, and so from
the rules of all looser ranks.

* `derives_expr`: expressions;
* `derives_stmt`, `derives_function`: statements and functions;
* `derives_stmts`: the declarations of a block or a program.
-/

namespace Wandika

open Grammar Grammar.Form

/-- The kinds of signs. -/
def Sign.kinds (signs : List Sign) : List Kind := signs.map Sign.kind

@[simp] theorem Sign.kinds_nil : Sign.kinds [] = [] := rfl

@[simp] theorem Sign.kinds_cons (s : Sign) (signs : List Sign) :
    Sign.kinds (s :: signs) = s.kind :: Sign.kinds signs := rfl

@[simp] theorem Sign.kinds_append (signs more : List Sign) :
    Sign.kinds (signs ++ more) = Sign.kinds signs ++ Sign.kinds more := List.map_append

@[simp] theorem Sign.kind_mark (k : Kind) : (Sign.mark k).kind = k := rfl

/-! ### Expressions -/

/-- A chain of a level with one more operator and operand is a chain of the level. -/
theorem Level.Joins.derives {l : Level} {op : Token} {lhs rhs : Expr} (h : l.Joins op lhs rhs)
    (hl : ∀ m ≤ lhs.rank, Derives (rule (.ofRank m)) (Sign.kinds lhs.yield))
    (hr : ∀ m ≤ rhs.rank, Derives (rule (.ofRank m)) (Sign.kinds rhs.yield)) :
    Derives (rule (.ofRank l.rank)) (Sign.kinds (lhs.yield ++ op.sign :: rhs.yield)) := by
  obtain ⟨u, us, hu, hus, e⟩ := derives_level.1 (hl _ h.rank_le)
  refine derives_level.2 ⟨u, us ++ [op.kind :: Sign.kinds rhs.yield], hu, ?_, by simp [e]⟩
  intro x hx
  rcases List.mem_append.1 hx with hx | hx
  · exact hus x hx
  · rw [List.mem_singleton.1 hx]
    exact ⟨op.kind, h.op_mem, _, rfl, hr _ h.rank_lt⟩

/-- A call with one more suffix is a call. -/
theorem derives_call_append {w x : List Kind} (h : Derives (rule .call) w) (hx : Suffix x) :
    Derives (rule .call) (w ++ x) := by
  obtain ⟨u, us, hu, hus, rfl⟩ := derives_call.1 h
  refine derives_call.2 ⟨u, us ++ [x], hu, ?_, by simp⟩
  intro y hy
  rcases List.mem_append.1 hy with hy | hy
  · exact hus y hy
  · rw [List.mem_singleton.1 hy]; exact hx

/-- What is closed in itself is a call. -/
theorem derives_call_of_primary {w : List Kind} (h : Derives (rule .primary) w) :
    Derives (rule .call) w :=
  derives_call.2 ⟨w, [], h, by simp, by simp⟩

/-- Expressions with commas between them form a list of arguments. -/
theorem derives_args {e : Expr} {es : List Expr} (hn : es.length < maxArguments)
    (h : ∀ e' ∈ e :: es, Derives (rule .expr) (Sign.kinds e'.yield)) :
    Derives (rule .args) (Sign.kinds (Expr.yieldAll (e :: es))) := by
  have key : ∀ (e : Expr) (es : List Expr), Sign.kinds (Expr.yieldAll (e :: es)) =
      Sign.kinds e.yield ++ (es.map fun e => .comma :: Sign.kinds e.yield).flatten := by
    intro e es
    induction es generalizing e with
    | nil => simp [Expr.yieldAll]
    | cons e' es ih => rw [Expr.yieldAll_cons _ (by simp)]; simp [ih e']
  rw [key]
  refine .rule (.seq (h e (by simp)) (derives_upTo.2 ⟨_, ?_, ?_, rfl⟩))
  · simp only [List.length_map]
    simp only [maxArguments] at hn
    omega
  · intro x hx
    obtain ⟨e', he', rfl⟩ := List.mem_map.1 hx
    exact derives_seq.2 ⟨_, _, rfl, .tok _, h e' (by simp [he'])⟩

mutual

/-- The kinds of an expression that has a shape are derivable, from the rule of every rank that
is not above its own. -/
theorem derives_expr : ∀ {e : Expr}, e.Shaped → ∀ m ≤ e.rank,
    Derives (rule (.ofRank m)) (Sign.kinds e.yield)
  | .assign id name value, ⟨hn, hv⟩, m, hm => by
      refine derives_ofRank_of_le hm (.rule (show Derives (rule .assignment) _ from ?_))
      have hv := derives_rule.1 (derives_expr hv 0 (Nat.zero_le _))
      have := Derives.rule (r := .assignment)
        (.left (.seq (.seq (.seq .absent (.tok .identifier)) (.tok .equal)) hv))
      simpa [Expr.yield, hn] using this
  | .binary op lhs rhs, ⟨⟨l, _, hj⟩, hl, hr⟩, m, hm => by
      rw [show (Expr.binary op lhs rhs).rank = l.rank from Kind.rank_of_mem hj.op_mem] at hm
      exact derives_ofRank_of_le hm (hj.derives (derives_expr hl) (derives_expr hr))
  | .call callee paren args, ⟨hc, hcs, ha, hn⟩, m, hm => by
      refine derives_ofRank_of_le hm (show Derives (rule .call) _ from ?_)
      have hx : Suffix (.leftParen :: (Sign.kinds (Expr.yieldAll args) ++ [.rightParen])) := by
        refine Or.inl ⟨_, rfl, ?_⟩
        cases args with
        | nil => exact Or.inl rfl
        | cons e es => exact Or.inr (derives_args hn (derives_exprs ha))
      simpa [Expr.yield] using derives_call_append (derives_expr hcs callRank hc.ge) hx
  | .get object name, ⟨ho, hs, hn⟩, m, hm => by
      refine derives_ofRank_of_le hm (show Derives (rule .call) _ from ?_)
      have := derives_call_append (derives_expr hs callRank ho.ge) (Or.inr rfl)
      simpa [Expr.yield, hn] using this
  | .group inner, h, m, hm => by
      refine derives_ofRank_of_le hm (derives_call_of_primary ?_)
      have hinner := derives_expr (e := inner) h 0 (Nat.zero_le _)
      have := Derives.rule (r := .primary)
        (.right (.seq (.seq (.tok .leftParen) hinner) (.tok .rightParen)))
      simpa [Expr.yield] using this
  | .literal value, h, m, hm => by
      refine derives_ofRank_of_le hm (derives_call_of_primary (derives_rule.2 ?_))
      simp only [Expr.Shaped] at h
      simp only [Rule.body, derives_alt, derives_tok, Expr.yield]
      cases value with
      | nil | number | text => simp [Datum.yield, Sign.kind, Sign.mark]
      | bool b => cases b <;> simp [Datum.yield]
      | absent | cls | object => cases h
  | .logical op lhs rhs, ⟨⟨l, _, hj⟩, hl, hr⟩, m, hm => by
      rw [show (Expr.logical op lhs rhs).rank = l.rank from Kind.rank_of_mem hj.op_mem] at hm
      exact derives_ofRank_of_le hm (hj.derives (derives_expr hl) (derives_expr hr))
  | .set object name value, ⟨ho, hs, hn, hv⟩, m, hm => by
      refine derives_ofRank_of_le hm (.rule (show Derives (rule .assignment) _ from ?_))
      have hv := derives_rule.1 (derives_expr hv 0 (Nat.zero_le _))
      have := Derives.rule (r := .assignment) (.left (.seq (.seq (.seq
        (.present (.seq (derives_expr hs callRank ho.ge) (.tok .dot)))
        (.tok .identifier)) (.tok .equal)) hv))
      simpa [Expr.yield, hn] using this
  | .ternary cond question yes none, ⟨hc, hcs, hy⟩, m, hm => by
      refine derives_ofRank_of_le hm (.rule (.rule (.right ?_)))
      have := Derives.rule (r := .ternary) (.seq (derives_expr hcs 1 hc) (.present (.seq
        (.seq (.tok .question) (derives_expr hy 0 (Nat.zero_le _))) .absent)))
      simpa [Expr.yield] using this
  | .ternary cond question yes (some no), ⟨hc, hcs, hy, _, hno⟩, m, hm => by
      refine derives_ofRank_of_le hm (.rule (.rule (.right ?_)))
      have := Derives.rule (r := .ternary) (.seq (derives_expr hcs 1 hc) (.present (.seq
        (.seq (.tok .question) (derives_expr hy 0 (Nat.zero_le _)))
        (.present (.seq (.tok .colon) (derives_expr hno 0 (Nat.zero_le _)))))))
      simpa [Expr.yield] using this
  | .unary op operand, ⟨hop, ho, hs⟩, m, hm => by
      refine derives_ofRank_of_le hm (.rule (.left ?_))
      refine derives_seq.2 ⟨[op.kind], _, by simp [Expr.yield], ?_, derives_expr hs unaryRank ho⟩
      simpa using hop
  | .variable id name, h, m, hm => by
      refine derives_ofRank_of_le hm (derives_call_of_primary (derives_rule.2 ?_))
      simp only [Expr.Shaped] at h
      simp [Rule.body, Expr.yield, h]

theorem derives_exprs : ∀ {es : List Expr}, Expr.ShapedAll es → ∀ e ∈ es,
    Derives (rule .expr) (Sign.kinds e.yield)
  | e :: es, ⟨h, hs⟩, e', he' => by
      rcases List.mem_cons.1 he' with he' | he'
      · rw [he']; exact derives_expr h 0 (Nat.zero_le _)
      · exact derives_exprs hs e' he'

end

/-! ### Statements -/

/-- The rules for the sorts of statements. -/
def statementRules : List Rule :=
  [.printStmt, .ifStmt, .whileStmt, .funcDecl, .classDecl, .returnStmt, .block, .exprStmt]

theorem derives_statement {w : List Kind} :
    Derives (rule .statement) w ↔ ∃ r ∈ statementRules, Derives (rule r) w := by
  rw [derives_rule]
  simp only [Rule.body, derives_alt, statementRules, List.mem_cons, List.not_mem_nil, or_false,
    exists_eq_or_imp, exists_eq_left]
  tauto

/-- The rule of a statement: variable declarations have one of their own. -/
def Stmt.rule (s : Stmt) : Rule :=
  if s.isVarDecl then .varDecl else .statement

theorem Stmt.rule_of_not_varDecl {s : Stmt} (h : s.isVarDecl = false) : s.rule = .statement := by
  simp [Stmt.rule, h]

/-- Whatever has a rule of statements is a declaration. -/
theorem derives_declaration {s : Stmt} {w : List Kind} (h : Derives (rule s.rule) w) :
    Derives (rule .declaration) w := by
  unfold Stmt.rule at h
  split_ifs at h
  · exact .rule (.left h)
  · exact .rule (.right h)

/-- Names with commas between them form a list of parameters. -/
theorem derives_params {t : Token} {ts : List Token} (hn : ts.length < maxArguments)
    (h : ∀ p ∈ t :: ts, p.kind = .identifier) :
    Derives (rule .params) (Sign.kinds (Token.yieldAll (t :: ts))) := by
  have key : ∀ (t : Token) (ts : List Token), (∀ p ∈ t :: ts, p.kind = .identifier) →
      Sign.kinds (Token.yieldAll (t :: ts)) =
        .identifier :: (ts.map fun _ => [Kind.comma, .identifier]).flatten := by
    intro t ts ht
    induction ts generalizing t with
    | nil => simp [Token.yieldAll, ht t (by simp)]
    | cons t' ts ih =>
      rw [Token.yieldAll_cons _ (by simp)]
      simp [ih t' fun p hp => ht p (by simp_all), ht t (by simp)]
  rw [key t ts h]
  refine .rule (.seq (.tok _) (derives_upTo.2 ⟨_, ?_, ?_, rfl⟩))
  · simp only [List.length_map]
    simp only [maxArguments] at hn
    omega
  · intro x hx
    obtain ⟨_, -, rfl⟩ := List.mem_map.1 hx
    exact derives_seq.2 ⟨_, _, rfl, .tok _, .tok _⟩

theorem derives_optParams {params : List Token} (hn : params.length ≤ maxArguments)
    (h : ∀ p ∈ params, p.kind = .identifier) :
    Derives (opt (rule .params)) (Sign.kinds (Token.yieldAll params)) := by
  cases params with
  | nil => exact .absent
  | cons t ts => exact .present (derives_params hn h)

/-- Words of declarations in braces form a block. -/
theorem derives_block {body : List Stmt}
    (h : ∃ us : List (List Kind), (∀ u ∈ us, Derives (rule .declaration) u) ∧
      Sign.kinds (Stmt.yieldAll body) = us.flatten) :
    Derives (rule .block)
      (.leftBrace :: (Sign.kinds (Stmt.yieldAll body) ++ [.rightBrace])) := by
  have := Derives.rule (r := .block)
    (.seq (.seq (.tok .leftBrace) (derives_many.2 h)) (.tok .rightBrace))
  simpa using this

mutual

/-- The kinds of a statement that has a shape are derivable. -/
theorem derives_stmt : ∀ {s : Stmt}, s.Shaped → Derives (rule s.rule) (Sign.kinds s.yield)
  | .block body, h => by
      refine derives_statement.2 ⟨.block, by simp [statementRules], ?_⟩
      simpa [Stmt.yield] using derives_block (@derives_stmts body h)
  | .classDecl name methods, ⟨hn, hm⟩ => by
      refine derives_statement.2 ⟨.classDecl, by simp [statementRules], ?_⟩
      have := Derives.rule (r := .classDecl) (.seq (.seq (.seq (.seq (.tok .classWord)
        (.tok .identifier)) (.tok .leftBrace)) (derives_many.2 (derives_functions hm)))
        (.tok .rightBrace))
      simpa [Stmt.yield, hn] using this
  | .expr value, h => by
      refine derives_statement.2 ⟨.exprStmt, by simp [statementRules], ?_⟩
      have := Derives.rule (r := .exprStmt)
        (.seq (derives_expr (e := value) h 0 (Nat.zero_le _)) (.tok .semicolon))
      simpa [Stmt.yield] using this
  | .function decl, h => by
      refine derives_statement.2 ⟨.funcDecl, by simp [statementRules], ?_⟩
      exact .rule (.seq (.tok .funcWord) (derives_function (f := decl) h))
  | .branch cond yes none, ⟨hc, hy, hv⟩ => by
      refine derives_statement.2 ⟨.ifStmt, by simp [statementRules], ?_⟩
      have hy := derives_stmt hy
      rw [Stmt.rule_of_not_varDecl hv] at hy
      have := Derives.rule (r := .ifStmt) (.seq (.seq (.seq (.seq (.seq (.tok .ifWord)
        (.tok .leftParen)) (derives_expr hc 0 (Nat.zero_le _))) (.tok .rightParen)) hy) .absent)
      simpa [Stmt.yield] using this
  | .branch cond yes (some no), ⟨hc, hy, hv, _, hno, hnv⟩ => by
      refine derives_statement.2 ⟨.ifStmt, by simp [statementRules], ?_⟩
      have hy := derives_stmt hy
      have hno := derives_stmt hno
      rw [Stmt.rule_of_not_varDecl hv] at hy
      rw [Stmt.rule_of_not_varDecl hnv] at hno
      have := Derives.rule (r := .ifStmt) (.seq (.seq (.seq (.seq (.seq (.tok .ifWord)
        (.tok .leftParen)) (derives_expr hc 0 (Nat.zero_le _))) (.tok .rightParen)) hy)
        (.present (.seq (.tok .elseWord) hno)))
      simpa [Stmt.yield] using this
  | .print value, h => by
      refine derives_statement.2 ⟨.printStmt, by simp [statementRules], ?_⟩
      have := Derives.rule (r := .printStmt) (.seq (.seq (.tok .printWord)
        (derives_expr (e := value) h 0 (Nat.zero_le _))) (.tok .semicolon))
      simpa [Stmt.yield] using this
  | .ret keyword none, _ => by
      refine derives_statement.2 ⟨.returnStmt, by simp [statementRules], ?_⟩
      have := Derives.rule (r := .returnStmt)
        (.seq (.seq (.tok .returnWord) .absent) (.tok .semicolon))
      simpa [Stmt.yield] using this
  | .ret keyword (some value), h => by
      refine derives_statement.2 ⟨.returnStmt, by simp [statementRules], ?_⟩
      have := Derives.rule (r := .returnStmt) (.seq (.seq (.tok .returnWord)
        (.present (derives_expr (e := value) h 0 (Nat.zero_le _)))) (.tok .semicolon))
      simpa [Stmt.yield] using this
  | .varDecl name none, h => by
      show Derives (rule .varDecl) _
      have hn : name.kind = .identifier := h
      have := Derives.rule (r := .varDecl) (.seq (.seq (.seq (.tok .varWord) (.tok .identifier))
        .absent) (.tok .semicolon))
      simpa [Stmt.yield, hn] using this
  | .varDecl name (some init), ⟨hn, hi⟩ => by
      show Derives (rule .varDecl) _
      have := Derives.rule (r := .varDecl) (.seq (.seq (.seq (.tok .varWord) (.tok .identifier))
        (.present (.seq (.tok .equal) (derives_expr hi 0 (Nat.zero_le _))))) (.tok .semicolon))
      simpa [Stmt.yield, hn] using this
  | .loop cond body, ⟨hc, hb, hv⟩ => by
      refine derives_statement.2 ⟨.whileStmt, by simp [statementRules], ?_⟩
      have hb := derives_stmt hb
      rw [Stmt.rule_of_not_varDecl hv] at hb
      have := Derives.rule (r := .whileStmt) (.seq (.seq (.seq (.seq (.tok .whileWord)
        (.tok .leftParen)) (derives_expr hc 0 (Nat.zero_le _))) (.tok .rightParen)) hb)
      simpa [Stmt.yield] using this

/-- The kinds of a function that has a shape are derivable. -/
theorem derives_function : ∀ {f : FunDecl}, f.Shaped →
    Derives (rule .function) (Sign.kinds f.yield)
  | .mk name params body, ⟨hn, hp, hl, hb⟩ => by
      have hps := derives_optParams hl hp
      have := Derives.rule (r := .function) (.seq (.seq (.seq (.seq (.tok .identifier)
        (.tok .leftParen)) hps) (.tok .rightParen)) (derives_block (derives_stmts hb)))
      simpa [FunDecl.yield, hn] using this

/-- The kinds of statements that have a shape are words of declarations. -/
theorem derives_stmts : ∀ {ss : List Stmt}, Stmt.ShapedAll ss →
    ∃ us : List (List Kind), (∀ u ∈ us, Derives (rule .declaration) u) ∧
      Sign.kinds (Stmt.yieldAll ss) = us.flatten
  | [], _ => ⟨[], by simp, rfl⟩
  | s :: ss, ⟨h, hs⟩ => by
      obtain ⟨us, hus, e⟩ := derives_stmts hs
      refine ⟨Sign.kinds s.yield :: us, ?_, by simp [Stmt.yieldAll, e]⟩
      simpa using ⟨derives_declaration (derives_stmt h), hus⟩

/-- The kinds of functions that have a shape are words of functions. -/
theorem derives_functions : ∀ {fs : List FunDecl}, FunDecl.ShapedAll fs →
    ∃ us : List (List Kind), (∀ u ∈ us, Derives (rule .function) u) ∧
      Sign.kinds (FunDecl.yieldAll fs) = us.flatten
  | [], _ => ⟨[], by simp, rfl⟩
  | f :: fs, ⟨h, hs⟩ => by
      obtain ⟨us, hus, e⟩ := derives_functions hs
      refine ⟨Sign.kinds f.yield :: us, ?_, by simp [FunDecl.yieldAll, e]⟩
      simpa using ⟨derives_function h, hus⟩

end

end Wandika
