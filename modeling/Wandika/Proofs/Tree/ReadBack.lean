import Wandika.Proofs.Parser.Marks
import Wandika.Proofs.Tree.Readable
import Wandika.Proofs.Tree.Tokens

/-!
# Forms can be read back

* `Expr.unplaced`, `Stmt.unplaced`, `FunDecl.unplaced`: a tree whose nodes are not numbered and
  whose tokens stand nowhere;
* `Form.expr?`, `Form.stmt?`: the tree that a form shows;
* `Expr.expr?_form`, `Stmt.stmt?_form`: the form of a parsed tree shows the tree.
-/

namespace Wandika

/-! ### Trees without numbers and places -/

mutual

/-- An expression whose nodes are not numbered and whose tokens stand nowhere. -/
def Expr.unplaced : Expr → Expr
  | .assign _ name value => .assign 0 name.bare value.unplaced
  | .binary op lhs rhs => .binary op.bare lhs.unplaced rhs.unplaced
  | .call callee paren args =>
      .call callee.unplaced (paren.map Token.bare) (Expr.unplacedAll args)
  | .get object name => .get object.unplaced name.bare
  | .group inner => .group inner.unplaced
  | .literal value => .literal value
  | .logical op lhs rhs => .logical op.bare lhs.unplaced rhs.unplaced
  | .set object name value => .set object.unplaced name.bare value.unplaced
  | .ternary cond question yes none =>
      .ternary cond.unplaced (question.map Token.bare) yes.unplaced none
  | .ternary cond question yes (some no) =>
      .ternary cond.unplaced (question.map Token.bare) yes.unplaced (some no.unplaced)
  | .unary op operand => .unary op.bare operand.unplaced
  | .variable _ name => .variable 0 name.bare

/-- Several expressions without numbers and places. -/
def Expr.unplacedAll : List Expr → List Expr
  | [] => []
  | e :: es => e.unplaced :: Expr.unplacedAll es

end

mutual

/-- A statement whose nodes are not numbered and whose tokens stand nowhere. -/
def Stmt.unplaced : Stmt → Stmt
  | .block body => .block (Stmt.unplacedAll body)
  | .classDecl name methods => .classDecl name.bare (FunDecl.unplacedAll methods)
  | .expr value => .expr value.unplaced
  | .function decl => .function decl.unplaced
  | .branch cond yes none => .branch cond.unplaced yes.unplaced none
  | .branch cond yes (some no) => .branch cond.unplaced yes.unplaced (some no.unplaced)
  | .print value => .print value.unplaced
  | .ret keyword none => .ret (keyword.map Token.bare) none
  | .ret keyword (some value) => .ret (keyword.map Token.bare) (some value.unplaced)
  | .varDecl name none => .varDecl name.bare none
  | .varDecl name (some init) => .varDecl name.bare (some init.unplaced)
  | .loop cond body => .loop cond.unplaced body.unplaced

/-- A function without numbers and places. -/
def FunDecl.unplaced : FunDecl → FunDecl
  | .mk name params body => .mk name.bare (params.map Token.bare) (Stmt.unplacedAll body)

/-- Several statements without numbers and places. -/
def Stmt.unplacedAll : List Stmt → List Stmt
  | [] => []
  | s :: ss => s.unplaced :: Stmt.unplacedAll ss

/-- Several functions without numbers and places. -/
def FunDecl.unplacedAll : List FunDecl → List FunDecl
  | [] => []
  | f :: fs => f.unplaced :: FunDecl.unplacedAll fs

end

/-! ### Reading forms -/

/-- A name that stands nowhere. -/
def Token.named (text : String) : Token := ⟨.identifier, text, none, {}⟩

/-- A reserved word or a mark that stands nowhere. -/
def Token.ofKind (k : Kind) : Token := ⟨k, k.spelling, none, {}⟩

/-- The kinds of operators. -/
def Kind.operators : List Kind := .bang :: Level.all.flatMap Level.operators

/-- The operator with a spelling. -/
def Kind.operator? (text : String) : Option Kind :=
  Kind.operators.find? (·.spelling = text)

/-- The expression of an operator and its operands. -/
def Expr.operation? (k : Kind) : List Expr → Option Expr
  | [operand] => some (.unary (.ofKind k) operand)
  | [lhs, rhs] =>
      if k ∈ [.orWord, .andWord] then some (.logical (.ofKind k) lhs rhs)
      else some (.binary (.ofKind k) lhs rhs)
  | _ => none

/-- The expression with a head and parts. -/
def Expr.ofParts? (head : String) (parts : List Expr) : Option Expr :=
  match Kind.operator? head with
  | some k => Expr.operation? k parts
  | none =>
      match head, parts with
      | "=", [target, value] => assignment? target value
      | ".", [object, .variable _ name] => some (.get object name)
      | "call", callee :: args => some (.call callee (Token.ofKind .rightParen) args)
      | "group", [inner] => some (.group inner)
      | "?:", [cond, yes] => some (.ternary cond (Token.ofKind .question) yes none)
      | "?:", [cond, yes, no] => some (.ternary cond (Token.ofKind .question) yes (some no))
      | _, _ => none

mutual

/-- The expression that a form shows. -/
def Form.expr? : Form → Option Expr
  | .word text => some (.variable 0 (.named text))
  | .datum d => some (.literal d)
  | .list (.word head :: parts) => (Form.exprs? parts).bind (Expr.ofParts? head)
  | .list _ => none

/-- The expressions that several forms show. -/
def Form.exprs? : List Form → Option (List Expr)
  | [] => some []
  | f :: fs => f.expr?.bind fun e => (Form.exprs? fs).map (e :: ·)

end

/-- The names that several words show. One empty word stands for no name at all. -/
def Form.names? : List Form → Option (List Token)
  | [] => some []
  | [.word ""] => some []
  | .word text :: fs => (Form.names? fs).map (.named text :: ·)
  | _ => none

mutual

/-- The statement that a form shows. -/
def Form.stmt? : Form → Option Stmt
  | .list (.word "block" :: body) => (Form.stmts? body).map .block
  | .list (.word "class" :: .word name :: methods) =>
      (Form.decls? methods).map (.classDecl (.named name))
  | .list [.word ";", value] => value.expr?.map .expr
  | .list (.word "func" :: .word name :: .list params :: body) =>
      (Form.names? params).bind fun params => (Form.stmts? body).map fun body =>
        .function (.mk (.named name) params body)
  | .list [.word "if", cond, yes] =>
      cond.expr?.bind fun cond => yes.stmt?.map fun yes => .branch cond yes none
  | .list [.word "if", cond, yes, no] =>
      cond.expr?.bind fun cond => yes.stmt?.bind fun yes => no.stmt?.map fun no =>
        .branch cond yes (some no)
  | .list [.word "wandika", value] => value.expr?.map .print
  | .list [.word "return"] => some (.ret (Token.ofKind .returnWord) none)
  | .list [.word "return", value] =>
      value.expr?.map fun value => .ret (Token.ofKind .returnWord) (some value)
  | .list [.word "var", .word name] => some (.varDecl (.named name) none)
  | .list [.word "var", .word name, init] =>
      init.expr?.map fun init => .varDecl (.named name) (some init)
  | .list [.word "albeit", cond, body] =>
      cond.expr?.bind fun cond => body.stmt?.map fun body => .loop cond body
  | _ => none

/-- The statements that several forms show. One empty word stands for no statement at all. -/
def Form.stmts? : List Form → Option (List Stmt)
  | [] => some []
  | [.word ""] => some []
  | f :: fs => f.stmt?.bind fun s => (Form.stmts? fs).map (s :: ·)

/-- The functions that several forms show. -/
def Form.decls? : List Form → Option (List FunDecl)
  | [] => some []
  | f :: fs => f.stmt?.bind fun
      | .function decl => (Form.decls? fs).map (decl :: ·)
      | _ => none

end

section Parts

variable (target value object callee inner cond yes no : Expr)

theorem Expr.ofParts?_assignment :
    Expr.ofParts? "=" [target, value] = assignment? target value := rfl

theorem Expr.ofParts?_get (id : Int) (name : Token) :
    Expr.ofParts? "." [object, .variable id name] = some (.get object name) := rfl

theorem Expr.ofParts?_call (args : List Expr) :
    Expr.ofParts? "call" (callee :: args) =
      some (.call callee (Token.ofKind .rightParen) args) := rfl

theorem Expr.ofParts?_group : Expr.ofParts? "group" [inner] = some (.group inner) := rfl

theorem Expr.ofParts?_ternary :
    Expr.ofParts? "?:" [cond, yes] =
      some (.ternary cond (Token.ofKind .question) yes none) := rfl

theorem Expr.ofParts?_ternary_else :
    Expr.ofParts? "?:" [cond, yes, no] =
      some (.ternary cond (Token.ofKind .question) yes (some no)) := rfl

theorem Expr.ofParts?_operator {k : Kind} (hk : k ∈ Kind.operators) (parts : List Expr) :
    Expr.ofParts? k.spelling parts = Expr.operation? k parts := by
  have hread : ∀ k ∈ Kind.operators, Kind.operator? k.spelling = some k := by decide
  unfold Expr.ofParts?
  rw [hread k hk]

theorem Expr.operation?_binary {l : Level} (hl : l ∈ [Level.equality, .comparison, .term, .factor])
    {k : Kind} (hk : k ∈ l.operators) :
    Expr.operation? k [target, value] = some (.binary (.ofKind k) target value) := by
  have hkinds : ∀ l ∈ [Level.equality, .comparison, .term, .factor], ∀ k ∈ l.operators,
      k ∉ [Kind.orWord, .andWord] := by decide
  exact if_neg (hkinds l hl k hk)

theorem Expr.operation?_logical {l : Level} (hl : l ∈ [Level.or, .and]) {k : Kind}
    (hk : k ∈ l.operators) :
    Expr.operation? k [target, value] = some (.logical (.ofKind k) target value) := by
  have hkinds : ∀ l ∈ [Level.or, .and], ∀ k ∈ l.operators, k ∈ [Kind.orWord, .andWord] := by decide
  exact if_pos (hkinds l hl k hk)

end Parts

/-! ### Tokens of texts -/

theorem Lexeme.literal_eq_none {k : Kind} {l : Option Literal} {text : List Char}
    (h : Lexeme k l text) (hn : k ≠ .number) (hs : k ≠ .string) : l = none := by
  cases h with
  | symbol | word => rfl
  | whole | decimal => exact absurd rfl hn
  | string => exact absurd rfl hs

theorem Lexeme.eq_spelling {k : Kind} {l : Option Literal} {text : List Char}
    (h : Lexeme k l text) (hk : k.varies = false) : text = k.spelling.toList := by
  cases h with
  | symbol hmem =>
    have hname : ∀ k ∈ Kind.symbols, k.name.toList = k.spelling.toList := by decide
    exact hname k hmem
  | whole | decimal | string => cases hk
  | @word c cs =>
    rcases ofWord_eq (String.ofList (c :: cs)) with hword | ⟨hword, -⟩
    · rw [hword] at hk
      cases hk
    · rw [← hword, String.toList_ofList]

theorem isPlain_of_isAlphanumeric {c : Char} (h : Text.isAlphanumeric c = true) :
    isPlain c = true := by
  simp only [isPlain, decide_eq_true_eq]
  intro hmem
  have hstop : [' ', '(', ')', '"', '\n'].all (!Text.isAlphanumeric ·) = true := by decide
  simpa [h] using List.all_eq_true.1 hstop c hmem

theorem Lexeme.isWord {text : List Char} {l : Option Literal} (h : Lexeme .identifier l text) :
    isWord (String.ofList text) = true := by
  generalize hk : Kind.identifier = k at h
  cases h with
  | symbol hmem =>
    subst hk
    exact absurd hmem (by decide)
  | whole | decimal | string => cases hk
  | @word c cs letter rest =>
    have hdigit : Text.isDigit c = false := by
      cases hd : Text.isDigit c with
      | false => rfl
      | true => simp [isLetter_of_isDigit hd] at letter
    have hplain : ∀ d ∈ c :: cs, isPlain d = true := by
      rw [List.forall_mem_cons]
      exact ⟨isPlain_of_isAlphanumeric (Text.isAlphanumeric_of_isLetter letter),
        fun d hd => isPlain_of_isAlphanumeric (rest d hd)⟩
    have hreserved : String.ofList (c :: cs) ∉ ["nil", "true", "false", "+Inf"] := by
      intro hmem
      have hword : ∀ word ∈ ["nil", "true", "false", "+Inf"],
          Kind.ofWord word ≠ .identifier ∨ word.toList.head?.all Text.isLetter = false := by decide
      -- three of them are reserved, and the last one does not begin with a letter
      rcases hword _ hmem with hword | hword
      · exact hword hk.symm
      · simp [letter] at hword
    simp only [Wandika.isWord, String.toList_ofList, Bool.and_eq_true]
    exact ⟨⟨List.all_eq_true.2 hplain, decide_eq_true hreserved⟩, by simp [hdigit]⟩

namespace Token.Scanned

variable {t : Token}

/-- A name is its spelling. -/
theorem bare_eq_named (h : t.Scanned) (hk : t.kind = .identifier) : t.bare = .named t.lexeme := by
  rcases h with h | h
  · cases hk.symm.trans h
  · have hliteral := h.literal_eq_none (by simp [hk]) (by simp [hk])
    simp [Token.bare, Token.named, hk, hliteral]

/-- A reserved word or a mark is its kind. -/
theorem bare_eq_ofKind (h : t.Scanned) (hk : t.kind.varies = false) (heof : t.kind ≠ .eof) :
    t.bare = .ofKind t.kind := by
  rcases h with h | h
  · exact absurd h heof
  · have hliteral := h.literal_eq_none (fun hn => by simp [hn, Kind.varies] at hk)
      (fun hs => by simp [hs, Kind.varies] at hk)
    have hlexeme := String.toList_inj.1 (h.eq_spelling hk)
    simp [Token.bare, Token.ofKind, hlexeme, hliteral]

theorem lexeme_ne_empty (h : t.Scanned) (hk : t.kind = .identifier) : t.lexeme ≠ "" := by
  rcases h with h | h
  · cases hk.symm.trans h
  · intro hempty
    rw [hempty] at h
    exact h.ne_nil rfl

/-- A name is a word. -/
theorem isWord_lexeme (h : t.Scanned) (hk : t.kind = .identifier) : isWord t.lexeme = true := by
  rcases h with h | h
  · cases hk.symm.trans h
  · rw [hk] at h
    simpa using h.isWord

end Token.Scanned

/-! ### Reading back -/

theorem IsMark.map_bare {k : Kind} {t? : Option Token} (h : IsMark k t?) (hk : k.varies = false)
    (heof : k ≠ .eof) (ht : ∀ t ∈ t?.toList, t.Scanned) :
    t?.map Token.bare = some (.ofKind k) := by
  obtain ⟨t, rfl, rfl⟩ := h
  exact congrArg some ((ht t (by simp)).bare_eq_ofKind hk heof)

theorem Kind.varies_of_mem_operators :
    ∀ k ∈ Kind.operators, k.varies = false ∧ k ≠ .eof := by decide

/-- An operator is its kind, and it is spelled like it. -/
theorem Token.Scanned.operator {op : Token} (h : op.Scanned) (hk : op.kind ∈ Kind.operators) :
    op.bare = .ofKind op.kind ∧ op.lexeme = op.kind.spelling := by
  obtain ⟨hv, heof⟩ := Kind.varies_of_mem_operators _ hk
  have hbare := h.bare_eq_ofKind hv heof
  exact ⟨hbare, congrArg Token.lexeme hbare⟩

theorem Level.mem_operators {l : Level} {k : Kind} (h : k ∈ l.operators) : k ∈ Kind.operators :=
  List.mem_cons_of_mem _ (List.mem_flatMap.2 ⟨l, by cases l <;> decide, h⟩)

mutual

/-- The form of an expression shows the expression. -/
theorem Expr.expr?_form : ∀ e : Expr, e.Shaped → e.Marked → (∀ t ∈ e.tokens, t.Scanned) →
    e.form.expr? = some e.unplaced
  | .assign _ name value, hs, hm, ht => by
      obtain ⟨hn, hv⟩ := List.forall_mem_cons.1 ht
      simp [Expr.form, Form.expr?, Form.exprs?, Expr.expr?_form value hs.2 hm hv, Expr.unplaced,
        hn.bare_eq_named hs.1, Expr.ofParts?_assignment, assignment?]
  | .binary op lhs rhs, hs, hm, ht => by
      obtain ⟨ho, hl, hr⟩ := (List.forall_mem_cons.1 ht).imp_right List.forall_mem_append.1
      obtain ⟨⟨l, hlevel, hjoin⟩, hsl, hsr⟩ := hs
      have hop := Level.mem_operators hjoin.op_mem
      obtain ⟨hbare, hlexeme⟩ := ho.operator hop
      simp [Expr.form, Form.expr?, Form.exprs?, Expr.expr?_form lhs hsl hm.1 hl,
        Expr.expr?_form rhs hsr hm.2 hr, Expr.unplaced, hlexeme, hbare,
        Expr.ofParts?_operator hop, Expr.operation?_binary _ _ hlevel hjoin.op_mem]
  | .logical op lhs rhs, hs, hm, ht => by
      obtain ⟨ho, hl, hr⟩ := (List.forall_mem_cons.1 ht).imp_right List.forall_mem_append.1
      obtain ⟨⟨l, hlevel, hjoin⟩, hsl, hsr⟩ := hs
      have hop := Level.mem_operators hjoin.op_mem
      obtain ⟨hbare, hlexeme⟩ := ho.operator hop
      simp [Expr.form, Form.expr?, Form.exprs?, Expr.expr?_form lhs hsl hm.1 hl,
        Expr.expr?_form rhs hsr hm.2 hr, Expr.unplaced, hlexeme, hbare,
        Expr.ofParts?_operator hop, Expr.operation?_logical _ _ hlevel hjoin.op_mem]
  | .call callee paren args, hs, hm, ht => by
      obtain ⟨hp, hc, ha⟩ := (List.forall_mem_append.1 ht).imp_right List.forall_mem_append.1
      simp [Expr.form, Form.expr?, Form.exprs?, Expr.expr?_form callee hs.2.1 hm.2.1 hc,
        Expr.exprs?_formAll args hs.2.2.1 hm.2.2 ha, Expr.unplaced, Expr.ofParts?_call,
        hm.1.map_bare rfl (by decide) hp]
  | .get object name, hs, hm, ht => by
      obtain ⟨hn, ho⟩ := List.forall_mem_cons.1 ht
      simp [Expr.form, Form.expr?, Form.exprs?, Expr.expr?_form object hs.2.1 hm ho, Expr.unplaced,
        hn.bare_eq_named hs.2.2, Expr.ofParts?_get]
  | .group inner, hs, hm, ht => by
      simp [Expr.form, Form.expr?, Form.exprs?, Expr.expr?_form inner hs hm ht, Expr.unplaced,
        Expr.ofParts?_group]
  | .literal value, _, _, _ => rfl
  | .set object name value, hs, hm, ht => by
      obtain ⟨hn, ho, hv⟩ := (List.forall_mem_cons.1 ht).imp_right List.forall_mem_append.1
      simp [Expr.form, Form.expr?, Form.exprs?, Expr.expr?_form object hs.2.1 hm.1 ho,
        Expr.expr?_form value hs.2.2.2 hm.2 hv, Expr.unplaced, hn.bare_eq_named hs.2.2.1,
        Expr.ofParts?_get, Expr.ofParts?_assignment, assignment?]
  | .ternary cond question yes none, hs, hm, ht => by
      obtain ⟨hq, hc, hy⟩ := (List.forall_mem_append.1 ht).imp_right List.forall_mem_append.1
      simp [Expr.form, Form.expr?, Form.exprs?, Expr.expr?_form cond hs.2.1 hm.2.1 hc,
        Expr.expr?_form yes hs.2.2 hm.2.2 hy, Expr.unplaced, Expr.ofParts?_ternary,
        hm.1.map_bare rfl (by decide) hq]
  | .ternary cond question yes (some no), hs, hm, ht => by
      obtain ⟨hq, hc, hrest⟩ := (List.forall_mem_append.1 ht).imp_right List.forall_mem_append.1
      obtain ⟨hy, hn⟩ := List.forall_mem_append.1 hrest
      simp [Expr.form, Form.expr?, Form.exprs?, Expr.expr?_form cond hs.2.1 hm.2.1 hc,
        Expr.expr?_form yes hs.2.2.1 hm.2.2.1 hy, Expr.expr?_form no hs.2.2.2.2 hm.2.2.2 hn,
        Expr.unplaced, Expr.ofParts?_ternary_else, hm.1.map_bare rfl (by decide) hq]
  | .unary op operand, hs, hm, ht => by
      obtain ⟨ho, he⟩ := List.forall_mem_cons.1 ht
      have hop : op.kind ∈ Kind.operators :=
        (by decide : ∀ k ∈ [Kind.bang, .minus], k ∈ Kind.operators) _ hs.1
      obtain ⟨hbare, hlexeme⟩ := ho.operator hop
      simp [Expr.form, Form.expr?, Form.exprs?, Expr.expr?_form operand hs.2.2 hm he,
        Expr.unplaced, hlexeme, hbare, Expr.ofParts?_operator hop, Expr.operation?]
  | .variable _ name, hs, _, ht => by
      have hbare : name.bare = .named name.lexeme :=
        (ht name (by simp [Expr.tokens])).bare_eq_named hs
      simp [Expr.form, Form.expr?, Expr.unplaced, hbare]

theorem Expr.exprs?_formAll : ∀ es : List Expr, Expr.ShapedAll es → Expr.MarkedAll es →
    (∀ t ∈ Expr.tokensAll es, t.Scanned) →
    Form.exprs? (Expr.formAll es) = some (Expr.unplacedAll es)
  | [], _, _, _ => rfl
  | e :: es, hs, hm, ht => by
      obtain ⟨he, hes⟩ := List.forall_mem_append.1 ht
      simp [Expr.formAll, Form.exprs?, Expr.expr?_form e hs.1 hm.1 he,
        Expr.exprs?_formAll es hs.2 hm.2 hes, Expr.unplacedAll]

end

theorem Form.names?_cons {text : String} (h : text ≠ "") (fs : List Form) :
    Form.names? (.word text :: fs) = (Form.names? fs).map (.named text :: ·) := by
  rw [Form.names?]
  exact fun _ htext => h htext

theorem Form.names?_names {params : List Token} (hk : ∀ t ∈ params, t.kind = .identifier)
    (ht : ∀ t ∈ params, t.Scanned) :
    Form.names? (Form.names params) = some (params.map Token.bare) := by
  have hwords : ∀ {params : List Token}, (∀ t ∈ params, t.kind = .identifier) →
      (∀ t ∈ params, t.Scanned) →
      Form.names? (params.map fun t => .word t.lexeme) = some (params.map Token.bare) := by
    intro params hk ht
    induction params with
    | nil => rfl
    | cons t params ih =>
      rw [List.forall_mem_cons] at hk ht
      rw [List.map_cons, Form.names?_cons (ht.1.lexeme_ne_empty hk.1), ih hk.2 ht.2,
        List.map_cons, ht.1.bare_eq_named hk.1]
      rfl
  cases params with
  | nil => rfl
  | cons t params => exact hwords hk ht

theorem Form.stmts?_cons {f : Form} {fs : List Form} {s : Stmt} {ss : List Stmt}
    (h : f.stmt? = some s) (hs : Form.stmts? fs = some ss) :
    Form.stmts? (f :: fs) = some (s :: ss) := by
  rw [Form.stmts?, h, hs]
  · rfl
  · -- the empty word, which alone shows no statement, is not the form of one
    rintro rfl
    cases h

theorem Form.stmts?_body {ss : List Stmt} {fs : List Form} (h : Form.stmts? fs = some ss) :
    Form.stmts? (Form.body fs) = some ss := by
  cases fs with
  | nil => exact h
  | cons f fs => exact h

mutual

/-- The form of a statement shows the statement. -/
theorem Stmt.stmt?_form : ∀ s : Stmt, s.Shaped → s.Marked → (∀ t ∈ s.tokens, t.Scanned) →
    s.form.stmt? = some s.unplaced
  | .block body, hs, hm, ht => by
      simp [Stmt.form, Form.stmt?, Form.stmts?_body (Stmt.stmts?_formAll body hs hm ht),
        Stmt.unplaced]
  | .classDecl name methods, hs, hm, ht => by
      obtain ⟨hn, hf⟩ := List.forall_mem_cons.1 ht
      simp [Stmt.form, Form.stmt?, FunDecl.decls?_formAll methods hs.2 hm hf, Stmt.unplaced,
        hn.bare_eq_named hs.1]
  | .expr value, hs, hm, ht | .print value, hs, hm, ht => by
      simp [Stmt.form, Form.stmt?, Expr.expr?_form value hs hm ht, Stmt.unplaced]
  | .function decl, hs, hm, ht => FunDecl.stmt?_form decl hs hm ht
  | .branch cond yes none, hs, hm, ht => by
      obtain ⟨hc, hy⟩ := List.forall_mem_append.1 ht
      simp [Stmt.form, Form.stmt?, Expr.expr?_form cond hs.1 hm.1 hc,
        Stmt.stmt?_form yes hs.2.1 hm.2 hy, Stmt.unplaced]
  | .branch cond yes (some no), hs, hm, ht => by
      obtain ⟨hc, hy, hn⟩ := (List.forall_mem_append.1 ht).imp_right List.forall_mem_append.1
      simp [Stmt.form, Form.stmt?, Expr.expr?_form cond hs.1 hm.1 hc,
        Stmt.stmt?_form yes hs.2.1 hm.2.1 hy, Stmt.stmt?_form no hs.2.2.2.2.1 hm.2.2 hn,
        Stmt.unplaced]
  | .ret keyword none, _, hm, ht => by
      simp [Stmt.form, Form.stmt?, Stmt.unplaced, hm.map_bare rfl (by decide) ht]
  | .ret keyword (some value), hs, hm, ht => by
      obtain ⟨hk, hv⟩ := List.forall_mem_append.1 ht
      simp [Stmt.form, Form.stmt?, Expr.expr?_form value hs hm.2 hv, Stmt.unplaced,
        hm.1.map_bare rfl (by decide) hk]
  | .varDecl name none, hs, _, ht => by
      simp [Stmt.form, Form.stmt?, Stmt.unplaced,
        (ht name (by simp [Stmt.tokens])).bare_eq_named hs]
  | .varDecl name (some init), hs, hm, ht => by
      obtain ⟨hn, hi⟩ := List.forall_mem_cons.1 ht
      simp [Stmt.form, Form.stmt?, Expr.expr?_form init hs.2 hm hi, Stmt.unplaced,
        hn.bare_eq_named hs.1]
  | .loop cond body, hs, hm, ht => by
      obtain ⟨hc, hb⟩ := List.forall_mem_append.1 ht
      simp [Stmt.form, Form.stmt?, Expr.expr?_form cond hs.1 hm.1 hc,
        Stmt.stmt?_form body hs.2.1 hm.2 hb, Stmt.unplaced]

theorem FunDecl.stmt?_form : ∀ f : FunDecl, f.Shaped → f.Marked → (∀ t ∈ f.tokens, t.Scanned) →
    f.form.stmt? = some (.function f.unplaced)
  | .mk name params body, hs, hm, ht => by
      obtain ⟨hn, hp, hb⟩ := (List.forall_mem_cons.1 ht).imp_right List.forall_mem_append.1
      simp [FunDecl.form, Form.stmt?, Form.names?_names hs.2.1 hp,
        Form.stmts?_body (Stmt.stmts?_formAll body hs.2.2.2 hm hb), FunDecl.unplaced,
        hn.bare_eq_named hs.1]

theorem Stmt.stmts?_formAll : ∀ ss : List Stmt, Stmt.ShapedAll ss → Stmt.MarkedAll ss →
    (∀ t ∈ Stmt.tokensAll ss, t.Scanned) →
    Form.stmts? (Stmt.formAll ss) = some (Stmt.unplacedAll ss)
  | [], _, _, _ => rfl
  | s :: ss, hs, hm, ht => by
      obtain ⟨h, hss⟩ := List.forall_mem_append.1 ht
      exact Form.stmts?_cons (Stmt.stmt?_form s hs.1 hm.1 h)
        (Stmt.stmts?_formAll ss hs.2 hm.2 hss)

theorem FunDecl.decls?_formAll : ∀ fs : List FunDecl, FunDecl.ShapedAll fs → FunDecl.MarkedAll fs →
    (∀ t ∈ FunDecl.tokensAll fs, t.Scanned) →
    Form.decls? (FunDecl.formAll fs) = some (FunDecl.unplacedAll fs)
  | [], _, _, _ => rfl
  | f :: fs, hs, hm, ht => by
      obtain ⟨h, hfs⟩ := List.forall_mem_append.1 ht
      simp [FunDecl.formAll, Form.decls?, FunDecl.stmt?_form f hs.1 hm.1 h,
        FunDecl.decls?_formAll fs hs.2 hm.2 hfs, FunDecl.unplacedAll]

end

end Wandika
