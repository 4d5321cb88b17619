import Wandika.Proofs.Parser.DerivedExpressions
import Wandika.Proofs.Tree.Derivation

/-!
# Derivable programs are not rejected

An `else` after a statement may belong to the statement or to a condition around it, as a `:` may
after an expression, and it is handled in the same way.

* `begins_declaration`: what declarations begin with;
* `DerivedStmt`: what the rules for statements do with derivable words at one bound;
* `derivedStmt`: what they do at every bound;
* `program_derived`: a derivable program is not rejected.
-/

namespace Wandika

namespace Grammar

open Form

/-! ### First tokens of statements -/

/-- The keyword or the mark that a statement begins with, if the rule names it. -/
def Rule.keyword? : Rule → Option Kind
  | .varDecl => some .varWord
  | .block => some .leftBrace
  | .classDecl => some .classWord
  | .funcDecl => some .funcWord
  | .ifStmt => some .ifWord
  | .whileStmt => some .whileWord
  | .printStmt => some .printWord
  | .returnStmt => some .returnWord
  | _ => none

theorem derives_keyword {r : Rule} {k : Kind} {w : List Kind} (hr : r.keyword? = some k)
    (h : Derives (rule r) w) : ∃ u, w = k :: u := by
  suffices hb : Begins [k] w by
    obtain ⟨k', hk', u, rfl⟩ := hb
    exact ⟨u, by rw [List.mem_singleton.1 hk']⟩
  rw [derives_rule] at h
  cases r <;> cases hr
  · exact begins_seq (begins_seq (begins_seq (begins_tok (by decide)))) w h
  · exact begins_seq (begins_seq (begins_tok (by decide))) w h
  · exact begins_seq (begins_seq (begins_seq (begins_seq (begins_tok (by decide))))) w h
  · exact begins_seq (begins_tok (by decide)) w h
  · exact begins_seq
      (begins_seq (begins_seq (begins_seq (begins_seq (begins_tok (by decide)))))) w h
  · exact begins_seq (begins_seq (begins_seq (begins_seq (begins_tok (by decide))))) w h
  · exact begins_seq (begins_seq (begins_tok (by decide))) w h
  · exact begins_seq (begins_seq (begins_tok (by decide))) w h

/-- The kinds a statement begins with. -/
def statementStarts : List Kind :=
  [.printWord, .ifWord, .whileWord, .funcWord, .classWord, .returnWord, .leftBrace] ++ exprStarts

theorem begins_statement {w : List Kind} (h : Derives (rule .statement) w) :
    Begins statementStarts w := by
  obtain ⟨r, hr, h⟩ := derives_statement.1 h
  by_cases hx : r = .exprStmt
  · subst hx
    rw [derives_rule] at h
    refine begins_seq (fun u hu => ?_) w h
    obtain ⟨k, hk, v, rfl⟩ := begins_expr hu
    exact ⟨k, List.mem_append_right _ hk, v, rfl⟩
  · have keywords : ∀ r ∈ statementRules, r ≠ .exprStmt →
        ∃ k ∈ statementStarts, r.keyword? = some k := by decide
    obtain ⟨k, hs, hk⟩ := keywords r hr hx
    obtain ⟨u, rfl⟩ := derives_keyword hk h
    exact ⟨k, hs, u, rfl⟩

theorem begins_function {w : List Kind} (h : Derives (rule .function) w) :
    Begins [.identifier] w := by
  rw [derives_rule] at h
  exact begins_seq (begins_seq (begins_seq (begins_seq (begins_tok (by decide))))) w h

/-- A block is a list of declarations between braces. -/
theorem derives_block_iff {w : List Kind} :
    Derives (rule .block) w ↔ ∃ us : List (List Kind), (∀ u ∈ us, Derives (rule .declaration) u) ∧
      w = .leftBrace :: (us.flatten ++ [.rightBrace]) := by
  rw [derives_rule]
  simp only [Rule.body, derives_seq, derives_tok, derives_many]
  constructor
  · rintro ⟨_, _, rfl, ⟨_, _, rfl, rfl, us, hus, rfl⟩, rfl⟩
    exact ⟨us, hus, rfl⟩
  · rintro ⟨us, hus, rfl⟩
    exact ⟨_, _, rfl, ⟨_, _, rfl, rfl, us, hus, rfl⟩, rfl⟩

/-- The kinds a declaration begins with. -/
def declarationStarts : List Kind := .varWord :: statementStarts

theorem begins_declaration {w : List Kind} (h : Derives (rule .declaration) w) :
    Begins declarationStarts w := by
  rw [derives_rule] at h
  simp only [Rule.body, derives_alt] at h
  rcases h with h | h
  · obtain ⟨u, rfl⟩ := derives_keyword rfl h
    exact ⟨_, List.mem_cons_self, u, rfl⟩
  · obtain ⟨k, hk, v, rfl⟩ := begins_statement h
    exact ⟨k, List.mem_cons_of_mem _ hk, v, rfl⟩

theorem avoids_declarations {ks v : List Kind} {us : List (List Kind)}
    (hus : ∀ u ∈ us, Derives (rule .declaration) u) (hk : ∀ k ∈ declarationStarts, k ∉ ks)
    (hv : Avoids ks v) : Avoids ks (us.flatten ++ v) := by
  cases us with
  | nil => exact hv
  | cons u us =>
    rw [List.flatten_cons, List.append_assoc]
    exact ((begins_declaration (hus u (by simp))).append _).avoids hk

end Grammar

open Grammar Grammar.Form

namespace Parser

variable {n : Nat} {c : Cursor} {w v : List Kind}

/-! ### Simple statements -/

theorem varDecl_derived
    (hw : w = [] ∨ ∃ u, w = .equal :: u ∧ Derives (rule .expr) u)
    (hc : c.kinds = .identifier :: (w ++ .semicolon :: v)) :
    Ensures (varDecl n) c (fun _ c' => c'.kinds = v) Failure.Other := by
  unfold varDecl
  refine Ensures.expect_known hc (by decide) fun name c₁ _ hk₁ => ?_
  rcases hw with rfl | ⟨u, rfl, hu⟩
  · refine Ensures.accept_avoids (by rw [hk₁]; exact Avoids.of_head? rfl (by decide)) ?_
    exact Ensures.expect_known hk₁ (by decide) fun _ c₂ _ hk₂ => Ensures.pure hk₂
  · refine Ensures.accept_known hk₁ (by decide) fun _ c₂ _ hk₂ => ?_
    refine ((derivedExpr n).whole hu (Or.inl rfl) hk₂).bind (fun _ h => h) fun init c₃ hk₃ => ?_
    exact Ensures.expect_known hk₃ (by decide) fun _ c₄ _ hk₄ => Ensures.pure hk₄

theorem printStmt_derived (hw : Derives (rule .expr) w) (hc : c.kinds = w ++ .semicolon :: v) :
    Ensures (printStmt n) c (fun _ c' => c'.kinds = v) Failure.Other := by
  unfold printStmt
  refine ((derivedExpr n).whole hw (Or.inl rfl) hc).bind (fun _ h => h) fun value c₁ hk₁ => ?_
  exact Ensures.expect_known hk₁ (by decide) fun _ c₂ _ hk₂ => Ensures.pure hk₂

theorem exprStmt_derived (hw : Derives (rule .expr) w) (hc : c.kinds = w ++ .semicolon :: v) :
    Ensures (exprStmt n) c (fun _ c' => c'.kinds = v) Failure.Other := by
  unfold exprStmt
  refine ((derivedExpr n).whole hw (Or.inl rfl) hc).bind (fun _ h => h) fun value c₁ hk₁ => ?_
  exact Ensures.expect_known hk₁ (by decide) fun _ c₂ _ hk₂ => Ensures.pure hk₂

theorem returnStmt_derived {keyword : Token} (hw : w = [] ∨ Derives (rule .expr) w)
    (hc : c.kinds = w ++ .semicolon :: v) :
    Ensures (returnStmt n keyword) c (fun _ c' => c'.kinds = v) Failure.Other := by
  unfold returnStmt
  refine Ensures.sees ?_
  rcases hw with rfl | hw
  · rw [Cursor.sees_of_kinds hc (by decide)]
    exact Ensures.expect_known hc (by decide) fun _ c₁ _ hk₁ => Ensures.pure hk₁
  · rw [@Cursor.sees_of_avoids c .semicolon [.semicolon] ?_ (by simp)]
    · refine ((derivedExpr n).whole hw (Or.inl rfl) hc).bind (fun _ h => h) fun value c₁ hk₁ => ?_
      exact Ensures.expect_known hk₁ (by decide) fun _ c₂ _ hk₂ => Ensures.pure hk₂
    · rw [hc]
      exact ((begins_expr hw).append _).avoids (by decide)

theorem parameters_derived {us : List (List Kind)} :
    ∀ {n count : Nat} {c : Cursor}, count + us.length < maxArguments →
      (∀ x ∈ us, x = [.identifier]) → v.head? = some .rightParen →
      c.kinds = .identifier :: branches .comma us v →
      Ensures (parameters n count) c (fun _ c' => c'.kinds = v) Failure.Other := by
  induction us with
  | nil =>
    intro n count c hl _ hv hc
    cases n with
    | zero => exact Ensures.exhausted trivial
    | succ n =>
      simp only [List.length_nil] at hl
      rw [parameters, if_neg (by omega)]
      refine Ensures.expect_known hc (by decide) fun name c₁ _ hk₁ => ?_
      refine Ensures.accept_avoids ?_ (Ensures.pure hk₁)
      rw [hk₁]
      exact Avoids.of_head? hv (by decide)
  | cons u us ih =>
    intro n count c hl hus hv hc
    cases n with
    | zero => exact Ensures.exhausted trivial
    | succ n =>
      simp only [List.forall_mem_cons] at hus
      obtain ⟨rfl, hus⟩ := hus
      simp only [List.length_cons] at hl
      rw [branches_cons] at hc
      rw [parameters, if_neg (by omega)]
      refine Ensures.expect_known hc (by decide) fun name c₁ _ hk₁ => ?_
      refine Ensures.accept_known hk₁ (by decide) fun _ c₂ _ hk₂ => ?_
      refine (ih (by omega) hus hv hk₂).bind (fun _ h => h) fun rest c₃ hk₃ => ?_
      exact Ensures.pure hk₃

/-- A parameter list before its closing parenthesis. -/
theorem parameterList_derived {α : Type} {next : List Token → Parser α}
    {post : α → Cursor → Prop} (hw : w = [] ∨ Derives (rule .params) w)
    (hc : c.kinds = w ++ .rightParen :: v)
    (h : ∀ params c', c'.kinds = .rightParen :: v → Ensures (next params) c' post Failure.Other) :
    Ensures (do
      let params ← if ← Parser.sees .rightParen then pure [] else Parser.parameters n 0
      next params) c post Failure.Other := by
  refine Ensures.sees ?_
  rcases hw with rfl | hw
  · rw [Cursor.sees_of_kinds hc (by decide)]
    exact Ensures.pure_bind (h [] c hc)
  · rw [derives_rule] at hw
    obtain ⟨u, us, hl, hu, hus, rfl⟩ := listed_of_derives hw
    simp only [derives_tok] at hu hus
    subst hu
    rw [List.append_assoc, branches_append, List.nil_append] at hc
    rw [@Cursor.sees_of_avoids c .rightParen [.rightParen] ?_ (by simp)]
    · exact (parameters_derived (by simpa using hl) hus rfl hc).bind (fun _ h => h) h
    · rw [hc]
      exact Avoids.of_head? rfl (by decide)

/-! ### Nested statements -/

/-- What the rules for statements do with derivable words at the bound `n`. -/
structure DerivedStmt (n : Nat) : Prop where
  declaration : ∀ (c : Cursor) (w v : List Kind), Derives (rule .declaration) w →
    Avoids [.elseWord] v → c.kinds = w ++ v →
    Ensures (declaration n) c (fun _ c' => c'.kinds = v) Failure.Other
  statement : ∀ (c : Cursor) (w : List Kind) (ws : List (List Kind)) (v : List Kind),
    Derives (rule .statement) w → (∀ x ∈ ws, Derives (rule .statement) x) →
    Avoids [.elseWord] v → c.kinds = w ++ branches .elseWord ws v →
    Ensures (statement n) c
      (fun _ c' => ∃ ws', ws' <:+ ws ∧ c'.kinds = branches .elseWord ws' v) Failure.Other
  block : ∀ (c : Cursor) (us : List (List Kind)) (v : List Kind),
    (∀ u ∈ us, Derives (rule .declaration) u) → c.kinds = us.flatten ++ .rightBrace :: v →
    Ensures (block n) c (fun _ c' => c'.kinds = v) Failure.Other
  ifStmt : ∀ (c : Cursor) (w : List Kind) (ws : List (List Kind)) (v : List Kind),
    Derives (rule .ifStmt) (.ifWord :: w) → (∀ x ∈ ws, Derives (rule .statement) x) →
    Avoids [.elseWord] v → c.kinds = w ++ branches .elseWord ws v →
    Ensures (ifStmt n) c
      (fun _ c' => ∃ ws', ws' <:+ ws ∧ c'.kinds = branches .elseWord ws' v) Failure.Other
  whileStmt : ∀ (keyword : Token) (c : Cursor) (w : List Kind) (ws : List (List Kind))
    (v : List Kind), Derives (rule .whileStmt) (.whileWord :: w) →
    (∀ x ∈ ws, Derives (rule .statement) x) → Avoids [.elseWord] v →
    c.kinds = w ++ branches .elseWord ws v →
    Ensures (whileStmt n keyword) c
      (fun _ c' => ∃ ws', ws' <:+ ws ∧ c'.kinds = branches .elseWord ws' v) Failure.Other
  function : ∀ (kind : FunKind) (c : Cursor) (w v : List Kind), Derives (rule .function) w →
    c.kinds = w ++ v → Ensures (function n kind) c (fun _ c' => c'.kinds = v) Failure.Other
  classDecl : ∀ (c : Cursor) (w v : List Kind), Derives (rule .classDecl) (.classWord :: w) →
    c.kinds = w ++ v → Ensures (classDecl n) c (fun _ c' => c'.kinds = v) Failure.Other
  methods : ∀ (c : Cursor) (us : List (List Kind)) (v : List Kind),
    (∀ u ∈ us, Derives (rule .function) u) → c.kinds = us.flatten ++ .rightBrace :: v →
    Ensures (methods n) c (fun _ c' => c'.kinds = v) Failure.Other

namespace DerivedStmt

variable {ws us : List (List Kind)}

theorem declaration_succ (ih : DerivedStmt n) (hw : Derives (rule .declaration) w)
    (hv : Avoids [.elseWord] v) (hc : c.kinds = w ++ v) :
    Ensures (Parser.declaration (n + 1)) c (fun _ c' => c'.kinds = v) Failure.Other := by
  rw [Parser.declaration]
  rw [derives_rule] at hw
  simp only [Rule.body, derives_alt] at hw
  rcases hw with hw | hw
  · rw [derives_rule] at hw
    simp only [Rule.body, derives_seq, derives_tok, derives_opt] at hw
    obtain ⟨_, _, rfl, ⟨_, o, rfl, ⟨_, _, rfl, rfl, rfl⟩, ho⟩, rfl⟩ := hw
    have hc : c.kinds = .varWord :: .identifier :: (o ++ .semicolon :: v) := by simp [hc]
    refine Ensures.accept_known hc (by decide) fun _ c₁ _ hk₁ => ?_
    refine varDecl_derived ?_ hk₁
    rcases ho with rfl | ⟨_, u, rfl, rfl, hu⟩
    · exact Or.inl rfl
    · exact Or.inr ⟨u, rfl, hu⟩
  · refine Ensures.accept_avoids ?_ ?_
    · rw [hc]
      exact ((begins_statement hw).append _).avoids (by decide)
    refine (ih.statement c w [] v hw (by simp) hv hc).mono ?_ fun _ h => h
    rintro _ c' ⟨ws', hs, hk⟩
    rwa [List.suffix_nil.1 hs] at hk

theorem block_succ (ih : DerivedStmt n) (hus : ∀ u ∈ us, Derives (rule .declaration) u)
    (hc : c.kinds = us.flatten ++ .rightBrace :: v) :
    Ensures (Parser.block (n + 1)) c (fun _ c' => c'.kinds = v) Failure.Other := by
  rw [Parser.block]
  refine Ensures.sees ?_
  refine Ensures.atEnd ?_
  cases us with
  | nil =>
    rw [Cursor.sees_of_kinds hc (by decide), Bool.true_or, if_pos rfl]
    exact Ensures.expect_known hc (by decide) fun _ c₁ _ hk₁ => Ensures.pure hk₁
  | cons u us =>
    simp only [List.forall_mem_cons] at hus
    rw [List.flatten_cons, List.append_assoc] at hc
    have hb : Begins declarationStarts c.kinds := by
      rw [hc]
      exact (begins_declaration hus.1).append _
    rw [@Cursor.sees_of_avoids c .rightBrace [.rightBrace] (hb.avoids (by decide)) (by simp),
      Cursor.atEnd_of_begins hb (by decide), Bool.or_false, if_neg Bool.false_ne_true]
    have hv : Avoids [.elseWord] (us.flatten ++ .rightBrace :: v) :=
      avoids_declarations hus.2 (by decide) (Avoids.of_head? rfl (by decide))
    refine (ih.declaration c u _ hus.1 hv hc).bind (fun _ h => h) fun first c₁ hk₁ => ?_
    refine (ih.block c₁ us v hus.2 hk₁).bind (fun _ h => h) fun rest c₂ hk₂ => ?_
    exact Ensures.pure hk₂

theorem methods_succ (ih : DerivedStmt n) (hus : ∀ u ∈ us, Derives (rule .function) u)
    (hc : c.kinds = us.flatten ++ .rightBrace :: v) :
    Ensures (Parser.methods (n + 1)) c (fun _ c' => c'.kinds = v) Failure.Other := by
  rw [Parser.methods]
  refine Ensures.sees ?_
  refine Ensures.atEnd ?_
  cases us with
  | nil =>
    rw [Cursor.sees_of_kinds hc (by decide), Bool.true_or, if_pos rfl]
    exact Ensures.expect_known hc (by decide) fun _ c₁ _ hk₁ => Ensures.pure hk₁
  | cons u us =>
    simp only [List.forall_mem_cons] at hus
    rw [List.flatten_cons, List.append_assoc] at hc
    have hb : Begins [.identifier] c.kinds := by
      rw [hc]
      exact (begins_function hus.1).append _
    rw [@Cursor.sees_of_avoids c .rightBrace [.rightBrace] (hb.avoids (by decide)) (by simp),
      Cursor.atEnd_of_begins hb (by decide), Bool.or_false, if_neg Bool.false_ne_true]
    refine (ih.function .method c u _ hus.1 hc).bind (fun _ h => h) fun first c₁ hk₁ => ?_
    refine (ih.methods c₁ us v hus.2 hk₁).bind (fun _ h => h) fun rest c₂ hk₂ => ?_
    exact Ensures.pure hk₂

theorem function_succ (ih : DerivedStmt n) {kind : FunKind} (hw : Derives (rule .function) w)
    (hc : c.kinds = w ++ v) :
    Ensures (Parser.function (n + 1) kind) c (fun _ c' => c'.kinds = v) Failure.Other := by
  rw [Parser.function]
  rw [derives_rule] at hw
  simp only [Rule.body, derives_seq, derives_tok, derives_opt] at hw
  obtain ⟨_, b, rfl, ⟨_, _, rfl, ⟨_, o, rfl, ⟨_, _, rfl, rfl, rfl⟩, ho⟩, rfl⟩, hb⟩ := hw
  obtain ⟨us, hus, rfl⟩ := derives_block_iff.1 hb
  have hc : c.kinds = .identifier :: .leftParen ::
      (o ++ .rightParen :: .leftBrace :: (us.flatten ++ .rightBrace :: v)) := by simp [hc]
  refine Ensures.expect_known hc (by decide) fun name c₁ _ hk₁ => ?_
  refine Ensures.expect_known hk₁ (by decide) fun _ c₂ _ hk₂ => ?_
  refine parameterList_derived ho hk₂ fun params c₃ hk₃ => ?_
  refine Ensures.expect_known hk₃ (by decide) fun _ c₄ _ hk₄ => ?_
  refine Ensures.expect_known hk₄ (by decide) fun _ c₅ _ hk₅ => ?_
  refine (ih.block c₅ us v hus hk₅).bind (fun _ h => h) fun body c₆ hk₆ => ?_
  exact Ensures.pure hk₆

theorem classDecl_succ (ih : DerivedStmt n) (hw : Derives (rule .classDecl) (.classWord :: w))
    (hc : c.kinds = w ++ v) :
    Ensures (Parser.classDecl (n + 1)) c (fun _ c' => c'.kinds = v) Failure.Other := by
  rw [Parser.classDecl]
  rw [derives_rule] at hw
  simp only [Rule.body, derives_seq, derives_tok, derives_many] at hw
  obtain ⟨_, _, e, ⟨_, _, rfl, ⟨_, _, rfl, ⟨_, _, rfl, rfl, rfl⟩, rfl⟩, us, hus, rfl⟩, rfl⟩ := hw
  obtain rfl : w = .identifier :: .leftBrace :: (us.flatten ++ [.rightBrace]) := by simpa using e
  have hc : c.kinds = .identifier :: .leftBrace :: (us.flatten ++ .rightBrace :: v) := by
    simp [hc]
  refine Ensures.expect_known hc (by decide) fun name c₁ _ hk₁ => ?_
  refine Ensures.expect_known hk₁ (by decide) fun _ c₂ _ hk₂ => ?_
  refine (ih.methods c₂ us v hus hk₂).bind (fun _ h => h) fun methods c₃ hk₃ => ?_
  exact Ensures.pure hk₃

theorem whileStmt_succ (ih : DerivedStmt n) {keyword : Token}
    (hw : Derives (rule .whileStmt) (.whileWord :: w))
    (hws : ∀ x ∈ ws, Derives (rule .statement) x) (hv : Avoids [.elseWord] v)
    (hc : c.kinds = w ++ branches .elseWord ws v) :
    Ensures (Parser.whileStmt (n + 1) keyword) c
      (fun _ c' => ∃ ws', ws' <:+ ws ∧ c'.kinds = branches .elseWord ws' v) Failure.Other := by
  rw [Parser.whileStmt]
  rw [derives_rule] at hw
  simp only [Rule.body, derives_seq, derives_tok] at hw
  obtain ⟨_, b, e, ⟨_, _, rfl, ⟨_, u, rfl, ⟨_, _, rfl, rfl, rfl⟩, hu⟩, rfl⟩, hb⟩ := hw
  obtain rfl : w = .leftParen :: (u ++ .rightParen :: b) := by simpa using e
  have hc : c.kinds = .leftParen :: (u ++ .rightParen :: (b ++ branches .elseWord ws v)) := by
    simp [hc]
  refine Ensures.expect_known hc (by decide) fun _ c₁ _ hk₁ => ?_
  refine ((derivedExpr n).whole hu (Or.inr (Or.inl rfl)) hk₁).bind (fun _ h => h)
    fun cond c₂ hk₂ => ?_
  refine Ensures.expect_known hk₂ (by decide) fun _ c₃ _ hk₃ => ?_
  refine (ih.statement c₃ b ws v hb hws hv hk₃).bind (fun _ h => h) fun body c₄ hk₄ => ?_
  exact Ensures.pure hk₄

/-- After the first branch of a condition: an `else` that follows belongs to it. -/
theorem ifStmt_rest (ih : DerivedStmt n) {cond : Expr} {yes : Stmt}
    (hws : ∀ x ∈ ws, Derives (rule .statement) x) (hv : Avoids [.elseWord] v)
    (hc : c.kinds = branches .elseWord ws v) :
    Ensures (do
      match ← accept .elseWord with
      | none => return Stmt.branch cond yes none
      | some _ =>
          let no ← Parser.statement n
          return Stmt.branch cond yes (some no)) c
      (fun _ c' => ∃ ws', ws' <:+ ws.tail ∧ c'.kinds = branches .elseWord ws' v)
      Failure.Other := by
  cases ws with
  | nil =>
    refine Ensures.accept_avoids ?_ (Ensures.pure ⟨[], List.suffix_refl _, hc⟩)
    rw [hc]
    exact hv
  | cons w ws =>
    rw [branches_cons] at hc
    refine Ensures.accept_known hc (by decide) fun _ c₁ _ hk₁ => ?_
    simp only [List.forall_mem_cons] at hws
    refine (ih.statement c₁ w ws v hws.1 hws.2 hv hk₁).bind (fun _ h => h) fun no c₂ hk₂ => ?_
    exact Ensures.pure hk₂

theorem ifStmt_succ (ih : DerivedStmt n) (hw : Derives (rule .ifStmt) (.ifWord :: w))
    (hws : ∀ x ∈ ws, Derives (rule .statement) x) (hv : Avoids [.elseWord] v)
    (hc : c.kinds = w ++ branches .elseWord ws v) :
    Ensures (Parser.ifStmt (n + 1)) c
      (fun _ c' => ∃ ws', ws' <:+ ws ∧ c'.kinds = branches .elseWord ws' v) Failure.Other := by
  rw [Parser.ifStmt]
  rw [derives_rule] at hw
  simp only [Rule.body, derives_seq, derives_tok, derives_opt] at hw
  obtain ⟨_, o, e, ⟨_, y, rfl, ⟨_, _, rfl, ⟨_, u, rfl, ⟨_, _, rfl, rfl, rfl⟩, hu⟩, rfl⟩, hy⟩, ho⟩ :=
    hw
  obtain rfl : w = .leftParen :: (u ++ .rightParen :: (y ++ o)) := by simpa using e
  -- the branches that may follow the first one: its own second branch, and those of `ws`
  obtain ⟨L, hL, hLw, hkL⟩ := branches_of_opt ho hws v
  have hc : c.kinds = .leftParen :: (u ++ .rightParen :: (y ++ branches .elseWord L v)) := by
    simp [hc, ← hkL]
  refine Ensures.expect_known hc (by decide) fun _ c₁ _ hk₁ => ?_
  refine ((derivedExpr n).whole hu (Or.inr (Or.inl rfl)) hk₁).bind (fun _ h => h)
    fun cond c₂ hk₂ => ?_
  refine Ensures.expect_known hk₂ (by decide) fun _ c₃ _ hk₃ => ?_
  refine (ih.statement c₃ y L v hy hL hv hk₃).bind (fun _ h => h) ?_
  rintro yes c₄ ⟨L', hs, hk₄⟩
  refine (ifStmt_rest ih (fun x hx => hL x (hs.subset hx)) hv hk₄).mono ?_ fun _ h => h
  rintro _ c₅ ⟨L'', hs', hk₅⟩
  exact ⟨L'', hs'.trans ((suffix_tail hs).trans hLw), hk₅⟩

theorem statement_succ (ih : DerivedStmt n) (hw : Derives (rule .statement) w)
    (hws : ∀ x ∈ ws, Derives (rule .statement) x) (hv : Avoids [.elseWord] v)
    (hc : c.kinds = w ++ branches .elseWord ws v) :
    Ensures (Parser.statement (n + 1)) c
      (fun _ c' => ∃ ws', ws' <:+ ws ∧ c'.kinds = branches .elseWord ws' v) Failure.Other := by
  rw [Parser.statement]
  have all : ∀ c' : Cursor, c'.kinds = branches .elseWord ws v →
      ∃ ws', ws' <:+ ws ∧ c'.kinds = branches .elseWord ws' v :=
    fun _ h => ⟨ws, List.suffix_refl _, h⟩
  obtain ⟨r, hr, hw⟩ := derives_statement.1 hw
  simp only [statementRules, List.mem_cons, List.not_mem_nil, or_false] at hr
  rcases hr with rfl | rfl | rfl | rfl | rfl | rfl | rfl | rfl
  · rw [derives_rule] at hw
    simp only [Rule.body, derives_seq, derives_tok] at hw
    obtain ⟨_, _, rfl, ⟨_, u, rfl, rfl, hu⟩, rfl⟩ := hw
    have hc : c.kinds = .printWord :: (u ++ .semicolon :: branches .elseWord ws v) := by
      simp [hc]
    refine Ensures.acceptAny_known hc (by decide) (by decide) fun t c₁ ht hk₁ => ?_
    simp only [ht]
    exact (printStmt_derived hu hk₁).mono (fun _ => all) fun _ h => h
  · obtain ⟨u, rfl⟩ := derives_keyword rfl hw
    refine Ensures.acceptAny_known hc (by decide) (by decide) fun t c₁ ht hk₁ => ?_
    simp only [ht]
    exact ih.ifStmt c₁ u ws v hw hws hv hk₁
  · obtain ⟨u, rfl⟩ := derives_keyword rfl hw
    refine Ensures.acceptAny_known hc (by decide) (by decide) fun t c₁ ht hk₁ => ?_
    simp only [ht]
    exact ih.whileStmt t c₁ u ws v hw hws hv hk₁
  · rw [derives_rule] at hw
    simp only [Rule.body, derives_seq, derives_tok] at hw
    obtain ⟨_, u, rfl, rfl, hu⟩ := hw
    refine Ensures.acceptAny_known hc (by decide) (by decide) fun t c₁ ht hk₁ => ?_
    simp only [ht]
    refine (ih.function .function c₁ u _ hu hk₁).bind (fun _ h => h) fun decl c₂ hk₂ => ?_
    exact Ensures.pure (all c₂ hk₂)
  · obtain ⟨u, rfl⟩ := derives_keyword rfl hw
    refine Ensures.acceptAny_known hc (by decide) (by decide) fun t c₁ ht hk₁ => ?_
    simp only [ht]
    exact (ih.classDecl c₁ u _ hw hk₁).mono (fun _ => all) fun _ h => h
  · rw [derives_rule] at hw
    simp only [Rule.body, derives_seq, derives_tok, derives_opt] at hw
    obtain ⟨_, _, rfl, ⟨_, o, rfl, rfl, ho⟩, rfl⟩ := hw
    have hc : c.kinds = .returnWord :: (o ++ .semicolon :: branches .elseWord ws v) := by
      simp [hc]
    refine Ensures.acceptAny_known hc (by decide) (by decide) fun t c₁ ht hk₁ => ?_
    simp only [ht]
    exact (returnStmt_derived ho hk₁).mono (fun _ => all) fun _ h => h
  · obtain ⟨us, hus, rfl⟩ := derives_block_iff.1 hw
    have hc : c.kinds = .leftBrace :: (us.flatten ++ .rightBrace :: branches .elseWord ws v) := by
      simp [hc]
    refine Ensures.acceptAny_known hc (by decide) (by decide) fun t c₁ ht hk₁ => ?_
    simp only [ht]
    refine (ih.block c₁ us _ hus hk₁).bind (fun _ h => h) fun body c₂ hk₂ => ?_
    exact Ensures.pure (all c₂ hk₂)
  · rw [derives_rule] at hw
    simp only [Rule.body, derives_seq, derives_tok] at hw
    obtain ⟨u, _, rfl, hu, rfl⟩ := hw
    have hc : c.kinds = u ++ .semicolon :: branches .elseWord ws v := by simp [hc]
    refine Ensures.acceptAny_avoids ?_ ?_
    · rw [hc]
      exact ((begins_expr hu).append _).avoids (by decide)
    exact (exprStmt_derived hu hc).mono (fun _ => all) fun _ h => h

end DerivedStmt

/-- A derivable declaration is not rejected, whatever the bound on the depth of rules. -/
theorem derivedStmt (n : Nat) : DerivedStmt n := by
  induction n with
  | zero =>
    constructor <;> intros <;> exact Ensures.exhausted trivial
  | succ n ih =>
    exact {
      declaration := fun _ _ _ => ih.declaration_succ
      statement := fun _ _ _ _ => ih.statement_succ
      block := fun _ _ _ => ih.block_succ
      ifStmt := fun _ _ _ _ => ih.ifStmt_succ
      whileStmt := fun _ _ _ _ _ => ih.whileStmt_succ
      function := fun _ _ _ _ => ih.function_succ
      classDecl := fun _ _ _ => ih.classDecl_succ
      methods := fun _ _ _ => ih.methods_succ }

/-! ### Programs -/

theorem statements_derived {us : List (List Kind)} :
    ∀ {n : Nat} {c : Cursor}, (∀ u ∈ us, Derives (rule .declaration) u) →
      c.kinds = us.flatten ++ [.eof] →
      Ensures (statements n) c (fun _ _ => True) Failure.Other := by
  induction us with
  | nil =>
    intro n c _ hc
    cases n with
    | zero => exact Ensures.exhausted trivial
    | succ n =>
      rw [statements]
      refine Ensures.atEnd ?_
      rw [Cursor.atEnd_of_kinds hc, if_pos rfl]
      exact Ensures.pure trivial
  | cons u us ih =>
    intro n c hus hc
    cases n with
    | zero => exact Ensures.exhausted trivial
    | succ n =>
      simp only [List.forall_mem_cons] at hus
      rw [List.flatten_cons, List.append_assoc] at hc
      have hb : Begins declarationStarts c.kinds := by
        rw [hc]
        exact (begins_declaration hus.1).append _
      have hv : Avoids [.elseWord] (us.flatten ++ [.eof]) :=
        avoids_declarations hus.2 (by decide) (Avoids.of_head? rfl (by decide))
      rw [statements]
      refine Ensures.atEnd ?_
      rw [Cursor.atEnd_of_begins hb (by decide), if_neg Bool.false_ne_true]
      refine ((derivedStmt n).declaration c u _ hus.1 hv hc).bind (fun _ h => h)
        fun first c₁ hk₁ => ?_
      refine (ih hus.2 hk₁).bind (fun _ h => h) fun rest c₂ _ => ?_
      exact Ensures.pure trivial

/-- A derivable program is not rejected. -/
theorem program_derived (h : Derives (rule .program) c.kinds) :
    Ensures program c (fun _ _ => True) Failure.Other := by
  rw [derives_rule] at h
  simp only [Rule.body, derives_seq, derives_tok, derives_many] at h
  obtain ⟨_, _, hc, ⟨us, hus, rfl⟩, rfl⟩ := h
  unfold program
  refine Ensures.get_bind ?_
  refine (statements_derived hus hc).bind (fun _ h => h) fun stmts c₁ _ => ?_
  exact Ensures.get_bind (Ensures.pure trivial)

end Parser

end Wandika
