import Wandika.Proofs.Tree.Derivation

/-!
# Beginnings of words

A word is viable for a form if it is the beginning of a word of the form. Where a rule has a place
for another one, what is viable for the inner rule is viable for the outer one, after a word for
all that stands before the place.

* `Grammar.Viable`, with one lemma for each way to put forms together;
* `Grammar.listFrom`: what is left of a list of arguments or parameters after some of them;
* `Grammar.closing`: what is left of a list in braces or of a program after some members;
* a lemma for each place in a rule;
* `Grammar.derives_program_ends`: a whole program has an end mark, and nothing else has one.
-/

namespace Wandika.Grammar

open Form

/-- The word can be continued to a word of the form. -/
def Viable (a : Form) (w : List Kind) : Prop := ∃ v, Derives a (w ++ v)

section Forms

variable {a b : Form} {u v w : List Kind}

theorem Derives.viable (h : Derives a w) : Viable a w := ⟨[], by simpa using h⟩

theorem viable_nil_tok (k : Kind) : Viable (tok k) [] := ⟨[k], .tok k⟩

/-- A beginning of a beginning. -/
theorem Viable.of_append (h : Viable a (u ++ w)) : Viable a u := by
  obtain ⟨v, hv⟩ := h
  exact ⟨w ++ v, by simpa using hv⟩

theorem Viable.rule {r : Rule} (h : Viable r.body w) : Viable (.rule r) w := by
  obtain ⟨v, hv⟩ := h
  exact ⟨v, .rule hv⟩

theorem Viable.left (h : Viable a w) : Viable (a ||| b) w := by
  obtain ⟨v, hv⟩ := h
  exact ⟨v, .left hv⟩

theorem Viable.right (h : Viable b w) : Viable (a ||| b) w := by
  obtain ⟨v, hv⟩ := h
  exact ⟨v, .right hv⟩

theorem Viable.first (h : Viable a w) (hb : Derives b v) : Viable (a ++ b) w := by
  obtain ⟨x, hx⟩ := h
  refine ⟨x ++ v, ?_⟩
  rw [← List.append_assoc]
  exact .seq hx hb

theorem Viable.after (h : Viable b w) (ha : Derives a u) : Viable (a ++ b) (u ++ w) := by
  obtain ⟨x, hx⟩ := h
  refine ⟨x, ?_⟩
  rw [List.append_assoc]
  exact .seq ha hx

theorem Viable.present (h : Viable a w) : Viable (opt a) w := by
  obtain ⟨v, hv⟩ := h
  exact ⟨v, .present hv⟩

theorem Viable.one (h : Viable a w) : Viable (many a) w := by
  obtain ⟨v, hv⟩ := h
  exact ⟨v, by simpa using Derives.more hv .stop⟩

end Forms

/-! ### Expressions -/

section Expressions

variable {u v w : List Kind}

theorem derives_nil (m : Nat) : Derives (rule (.ofRank m)) [.nilWord] := by
  have hprimary : Derives (rule .primary) [.nilWord] :=
    .rule (.left (.left (.right (.tok .nilWord))))
  have hcall : Derives (rule (.ofRank (m + 8))) [.nilWord] := derives_call_of_primary hprimary
  exact derives_ofRank_of_le (Nat.le_add_right m 8) hcall

theorem viable_nil_expr (m : Nat) : Viable (rule (.ofRank m)) [] :=
  (derives_nil m).viable.of_append (u := [])

theorem viable_expr_of_ternary (h : Viable (rule .ternary) w) : Viable (rule .expr) w :=
  .rule (.rule (.right h))

theorem viable_of_tighter {m : Nat} (h : Viable (rule (.ofRank (m + 1))) w) :
    Viable (rule (.ofRank m)) w := by
  obtain ⟨v, hv⟩ := h
  exact ⟨v, derives_ofRank_pred hv⟩

theorem viable_value {name : List Kind} (hname : Derives (opt (rule .call ++ tok .dot)) name)
    (h : Viable (rule .expr) w) : Viable (rule .expr) (name ++ .identifier :: .equal :: w) := by
  obtain ⟨v, hv⟩ := h
  have hvalue : Viable (rule .assignment) w := ⟨v, derives_rule.1 hv⟩
  have hhead : Derives (opt (rule .call ++ tok .dot) ++ tok .identifier ++ tok .equal)
      ((name ++ [.identifier]) ++ [.equal]) := .seq (.seq hname (.tok .identifier)) (.tok .equal)
  have hall := hvalue.after hhead
  rw [List.append_assoc, List.append_assoc] at hall
  exact .rule (.rule (.left hall))

theorem viable_yes (hcond : Derives (rule .logicOr) u) (h : Viable (rule .expr) w) :
    Viable (rule .ternary) (u ++ .question :: w) :=
  .rule (.after (.present (.first (.after h (.tok .question)) .absent)) hcond)

theorem viable_no (hcond : Derives (rule .logicOr) u) (hyes : Derives (rule .expr) v)
    (h : Viable (rule .expr) w) :
    Viable (rule .ternary) (u ++ .question :: (v ++ .colon :: w)) :=
  .rule (.after (.present (.after (.present (.after h (.tok .colon)))
    (.seq (.tok .question) hyes))) hcond)

/-- A chain of a level may go on with an operator and an operand. -/
theorem derives_level_append {l : Level} {k : Kind} (h : Derives (rule (.ofRank l.rank)) u)
    (hk : k ∈ l.operators) (hv : Derives (rule (.ofRank (l.rank + 1))) v) :
    Derives (rule (.ofRank l.rank)) (u ++ k :: v) := by
  obtain ⟨x, xs, hx, hxs, rfl⟩ := derives_level.1 h
  refine derives_level.2 ⟨x, xs ++ [k :: v], hx, fun y hy => ?_, by simp⟩
  rcases List.mem_append.1 hy with hy | hy
  · exact hxs y hy
  · rw [List.mem_singleton.1 hy]
    exact ⟨k, hk, v, rfl, hv⟩

theorem viable_operand {l : Level} {k : Kind} (h : Derives (rule (.ofRank l.rank)) u)
    (hk : k ∈ l.operators) (hw : Viable (rule (.ofRank (l.rank + 1))) w) :
    Viable (rule (.ofRank l.rank)) (u ++ k :: w) := by
  obtain ⟨v, hv⟩ := hw
  exact ⟨v, by simpa using derives_level_append h hk hv⟩

theorem viable_negated {k : Kind} (hk : k ∈ [Kind.bang, .minus]) (h : Viable (rule .unary) w) :
    Viable (rule .unary) (k :: w) := by
  have hop : Derives (tok .bang ||| tok .minus) [k] := by simpa using hk
  exact .rule (.left (.after h hop))

theorem viable_call_of_primary (h : Viable (rule .primary) w) : Viable (rule .call) w := by
  obtain ⟨v, hv⟩ := h
  exact ⟨v, derives_call_of_primary hv⟩

/-- What is left of a list of arguments or parameters after some of them. -/
def listFrom (a : Form) (count : Nat) : Form := a ++ upTo (254 - count) (tok .comma ++ a)

theorem viable_listFrom_of_member {a : Form} {count : Nat} (h : Viable a w) :
    Viable (listFrom a count) w :=
  .first h .stopUpTo

theorem viable_listFrom_append {a : Form} {count : Nat} (hcount : count < 254) (hu : Derives a u)
    (h : Viable (listFrom a (count + 1)) w) : Viable (listFrom a count) (u ++ .comma :: w) := by
  obtain ⟨v, hv⟩ := h
  obtain ⟨x, y, hxy, hx, hy⟩ := derives_seq.1 hv
  have hmore : Derives (upTo (254 - (count + 1) + 1) (tok .comma ++ a)) (([.comma] ++ x) ++ y) :=
    .moreUpTo (.seq (.tok .comma) hx) hy
  rw [show 254 - (count + 1) + 1 = 254 - count by omega, List.append_assoc, ← hxy] at hmore
  refine ⟨v, ?_⟩
  rw [List.append_assoc]
  exact .seq hu hmore

/-- An argument list that has been begun. -/
theorem viable_call_arguments (hu : Derives (rule .call) u)
    (h : Viable (listFrom (rule .expr) 0) w) :
    Viable (rule .call) (u ++ .leftParen :: w) := by
  obtain ⟨v, hv⟩ := h
  refine ⟨v ++ [.rightParen], ?_⟩
  have hsuffix : Suffix (.leftParen :: ((w ++ v) ++ [.rightParen])) :=
    Or.inl ⟨w ++ v, rfl, Or.inr (.rule hv)⟩
  simpa using derives_call_append hu hsuffix

theorem viable_property (hu : Derives (rule .call) u) : Viable (rule .call) (u ++ [.dot]) :=
  ⟨[.identifier], by simpa using derives_call_append hu (Or.inr rfl)⟩

theorem viable_group (h : Viable (rule .expr) w) : Viable (rule .primary) (.leftParen :: w) :=
  .rule (.right (.first (.after h (.tok .leftParen)) (.tok .rightParen)))

end Expressions

/-! ### Statements -/

section Statements

variable {u v w : List Kind}

theorem viable_init (h : Viable (rule .expr) w) :
    Viable (rule .varDecl) (.varWord :: .identifier :: .equal :: w) :=
  .rule (.first (.after (.present (.after h (.tok .equal)))
    (.seq (.tok .varWord) (.tok .identifier))) (.tok .semicolon))

theorem viable_declaration_of_varDecl (h : Viable (rule .varDecl) w) :
    Viable (rule .declaration) w :=
  .rule (.left h)

theorem viable_declaration_of_statement (h : Viable (rule .statement) w) :
    Viable (rule .declaration) w :=
  .rule (.right h)

theorem viable_statement {r : Rule} (hr : r ∈ statementRules) (h : Viable (rule r) w) :
    Viable (rule .statement) w := by
  obtain ⟨v, hv⟩ := h
  exact ⟨v, derives_statement.2 ⟨r, hr, hv⟩⟩

theorem viable_printed (h : Viable (rule .expr) w) : Viable (rule .printStmt) (.printWord :: w) :=
  .rule (.first (.after h (.tok .printWord)) (.tok .semicolon))

theorem viable_returned (h : Viable (rule .expr) w) :
    Viable (rule .returnStmt) (.returnWord :: w) :=
  .rule (.first (.after (.present h) (.tok .returnWord)) (.tok .semicolon))

theorem viable_exprStmt (h : Viable (rule .expr) w) : Viable (rule .exprStmt) w :=
  .rule (.first h (.tok .semicolon))

theorem derives_nilStmt : Derives (rule .statement) [.nilWord, .semicolon] :=
  derives_statement.2 ⟨.exprStmt, by simp [statementRules],
    .rule (.seq (derives_nil 0) (.tok .semicolon))⟩

theorem viable_ifCondition (h : Viable (rule .expr) w) :
    Viable (rule .ifStmt) (.ifWord :: .leftParen :: w) :=
  .rule (.first (.first (.first (.after h (.seq (.tok .ifWord) (.tok .leftParen)))
    (.tok .rightParen)) derives_nilStmt) .absent)

/-- A condition in parentheses after its keyword. -/
theorem derives_condition (k : Kind) (hu : Derives (rule .expr) u) :
    Derives (tok k ++ tok .leftParen ++ rule .expr ++ tok .rightParen)
      (k :: .leftParen :: (u ++ [.rightParen])) :=
  .seq (.seq (.seq (.tok k) (.tok .leftParen)) hu) (.tok .rightParen)

theorem viable_then (hu : Derives (rule .expr) u) (h : Viable (rule .statement) w) :
    Viable (rule .ifStmt) (.ifWord :: .leftParen :: (u ++ .rightParen :: w)) := by
  have hall := h.after (derives_condition .ifWord hu)
  simp only [List.cons_append, List.append_assoc, List.nil_append] at hall
  exact .rule (.first hall .absent)

theorem viable_else (hu : Derives (rule .expr) u) (hv : Derives (rule .statement) v)
    (h : Viable (rule .statement) w) :
    Viable (rule .ifStmt)
      (.ifWord :: .leftParen :: (u ++ .rightParen :: (v ++ .elseWord :: w))) := by
  have hall := (h.after (.tok .elseWord)).present.after (.seq (derives_condition .ifWord hu) hv)
  simp only [List.cons_append, List.append_assoc, List.nil_append] at hall
  exact .rule hall

theorem viable_loopCondition (h : Viable (rule .expr) w) :
    Viable (rule .whileStmt) (.whileWord :: .leftParen :: w) :=
  .rule (.first (.first (.after h (.seq (.tok .whileWord) (.tok .leftParen)))
    (.tok .rightParen)) derives_nilStmt)

theorem viable_loopBody (hu : Derives (rule .expr) u) (h : Viable (rule .statement) w) :
    Viable (rule .whileStmt) (.whileWord :: .leftParen :: (u ++ .rightParen :: w)) := by
  have hall := h.after (derives_condition .whileWord hu)
  simp only [List.cons_append, List.append_assoc, List.nil_append] at hall
  exact .rule hall

/-- What is left of a list in braces, or of a program, after some members: further members and the
mark that closes it. -/
def closing (a : Form) (k : Kind) : Form := many a ++ tok k

theorem viable_nil_closing (a : Form) (k : Kind) : Viable (closing a k) [] :=
  ⟨[k], .seq .stop (.tok k)⟩

theorem viable_closing_of_member {a : Form} {k : Kind} (h : Viable a w) : Viable (closing a k) w :=
  .first h.one (.tok k)

theorem viable_closing_append {a : Form} {k : Kind} (ha : Derives a u)
    (h : Viable (closing a k) w) : Viable (closing a k) (u ++ w) := by
  obtain ⟨v, hv⟩ := h
  obtain ⟨x, y, hxy, hx, hy⟩ := derives_seq.1 hv
  refine ⟨v, ?_⟩
  rw [List.append_assoc, hxy, ← List.append_assoc]
  exact .seq (.more ha hx) hy

theorem viable_block (h : Viable (closing (rule .declaration) .rightBrace) w) :
    Viable (rule .block) (.leftBrace :: w) := by
  obtain ⟨v, hv⟩ := h
  obtain ⟨x, y, hxy, hx, hy⟩ := derives_seq.1 hv
  refine ⟨v, ?_⟩
  rw [List.cons_append, hxy]
  exact .rule (.seq (.seq (.tok .leftBrace) hx) hy)

theorem viable_class (h : Viable (closing (rule .function) .rightBrace) w) :
    Viable (rule .classDecl) (.classWord :: .identifier :: .leftBrace :: w) := by
  obtain ⟨v, hv⟩ := h
  obtain ⟨x, y, hxy, hx, hy⟩ := derives_seq.1 hv
  refine ⟨v, ?_⟩
  simp only [List.cons_append, hxy]
  exact .rule (.seq (.seq (.seq (.seq (.tok .classWord) (.tok .identifier)) (.tok .leftBrace)) hx)
    hy)

theorem viable_function (h : Viable (rule .function) w) :
    Viable (rule .funcDecl) (.funcWord :: w) :=
  .rule (.after h (.tok .funcWord))

theorem viable_parameters (h : Viable (listFrom (tok .identifier) 0) w) :
    Viable (rule .function) (.identifier :: .leftParen :: w) := by
  obtain ⟨v, hv⟩ := h
  have hblock : Derives (rule .block) [.leftBrace, .rightBrace] :=
    .rule (.seq (.seq (.tok .leftBrace) .stop) (.tok .rightBrace))
  have hparams : Derives (opt (rule .params)) (w ++ v) := .present (.rule hv)
  refine ⟨v ++ [.rightParen, .leftBrace, .rightBrace], ?_⟩
  have hall := Derives.rule (r := .function) (.seq (.seq (.seq (.seq (.tok .identifier)
    (.tok .leftParen)) hparams) (.tok .rightParen)) hblock)
  simpa using hall

theorem viable_body (hu : Derives (opt (rule .params)) u) (h : Viable (rule .block) w) :
    Viable (rule .function) (.identifier :: .leftParen :: (u ++ .rightParen :: w)) := by
  have hhead : Derives (tok .identifier ++ tok .leftParen ++ opt (rule .params) ++ tok .rightParen)
      (.identifier :: .leftParen :: (u ++ [.rightParen])) :=
    .seq (.seq (.seq (.tok .identifier) (.tok .leftParen)) hu) (.tok .rightParen)
  have hall := h.after hhead
  simp only [List.cons_append, List.append_assoc, List.nil_append] at hall
  exact .rule hall

end Statements

/-! ### End marks -/

/-- The form has no place for an end mark, nor for a whole program. -/
def Form.inner : Form → Bool
  | .tok k => k ≠ .eof
  | .rule r => r ≠ .program
  | .seq a b | .alt a b => a.inner && b.inner
  | .opt a | .many a | .upTo _ a => a.inner

theorem Rule.inner_body {r : Rule} (h : r ≠ .program) : r.body.inner = true := by
  revert h
  cases r <;> decide

/-- Only a whole program has an end mark. -/
theorem eof_notMem {a : Form} {w : List Kind} (h : Derives a w) (ha : a.inner = true) :
    Kind.eof ∉ w := by
  induction h with
  | tok k =>
    have hk : k ≠ .eof := by simpa [Form.inner] using ha
    simpa using hk.symm
  | rule _ ih => exact ih (Rule.inner_body (by simpa [Form.inner] using ha))
  | seq _ _ ih ih' =>
    have ha := Bool.and_eq_true_iff.1 ha
    exact fun hmem => (List.mem_append.1 hmem).elim (ih ha.1) (ih' ha.2)
  | more _ _ ih ih' | moreUpTo _ _ ih ih' =>
    exact fun hmem => (List.mem_append.1 hmem).elim (ih ha) (ih' ha)
  | left _ ih => exact ih (Bool.and_eq_true_iff.1 ha).1
  | right _ ih => exact ih (Bool.and_eq_true_iff.1 ha).2
  | present _ ih => exact ih ha
  | absent | stop | stopUpTo => simp

/-- A program ends in its only end mark. -/
theorem derives_program_ends {w : List Kind} (h : Derives (rule .program) w) :
    ∃ body, w = body ++ [.eof] ∧ Kind.eof ∉ body := by
  obtain ⟨body, mark, rfl, hbody, hmark⟩ := derives_seq.1 (derives_rule.1 h)
  rw [derives_tok.1 hmark]
  exact ⟨body, rfl, eof_notMem hbody rfl⟩

end Wandika.Grammar
