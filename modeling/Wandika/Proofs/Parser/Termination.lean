import Wandika.Proofs.Parser.Onward
import Wandika.Proofs.Parser.Outcome

/-!
# Every rule comes to an end

Some rules call others before they have taken a token, but no rule calls itself so: between one
token and the next, rules follow one another from the looser to the tighter ones. So a bound that
allows some calls for every token is never reached, whatever the tokens are. The only thing asked
of them is that numbers and strings carry their literals.

* `Token.Valued`, `Cursor.Valued`: numbers and strings carry their literals;
* `Cursor.Beyond`: at least one token was taken;
* `Parser.Terminating`, `Parser.StmtTerminating`: every rule takes a token or fails, and it fails
  only by rejecting a token, if its bound was large enough;
* `Parser.statements_terminating`: so do all rules together.
-/

namespace Wandika

/-- A number and a string carry their literals. -/
structure Token.Valued (t : Token) : Prop where
  number : t.kind = .number → ∃ x, t.literal = some (.number x)
  text : t.kind = .string → ∃ s, t.literal = some (.text s)

/-- All numbers and strings that are left carry their literals. -/
def Cursor.Valued (c : Cursor) : Prop := ∀ t ∈ c.rest, t.Valued

/-- The second cursor stands behind the first: at least one token was taken. -/
structure Cursor.Beyond (c c' : Cursor) : Prop extends c.Onward c' where
  shorter : c'.rest.length < c.rest.length

namespace Cursor

variable {c c₁ c₂ : Cursor}

theorem Onward.valued (h : c.Onward c₁) (hc : c.Valued) : c₁.Valued :=
  fun t ht => hc t (h.rest.subset ht)

theorem Onward.length_le (h : c.Onward c₁) : c₁.rest.length ≤ c.rest.length :=
  h.rest.length_le

theorem Beyond.trans (h : c.Beyond c₁) (h' : c₁.Onward c₂) : c.Beyond c₂ :=
  ⟨h.toOnward.trans h', Nat.lt_of_le_of_lt h'.length_le h.shorter⟩

theorem Takes.beyond {t : Token} (h : c.Takes t c₁) : c.Beyond c₁ where
  rest := h.rest ▸ List.suffix_cons t c₁.rest
  nextId := Nat.le_of_eq h.nextId.symm
  shorter := by
    rw [h.rest]
    exact Nat.lt_succ_self _

end Cursor

namespace Parser

/-- The action takes a token or fails, and fails by rejecting a token if the bound is enough. -/
abbrev Progresses {α : Type} (act : Parser α) (c : Cursor) (enough : Prop) : Prop :=
  Ensures act c (fun _ c' => c.Beyond c') (Failure.Within enough)

/-- The action may succeed without taking a token. -/
abbrev Continues {α : Type} (act : Parser α) (c : Cursor) (enough : Prop) : Prop :=
  Ensures act c (fun _ c' => c.Onward c') (Failure.Within enough)

/-! ### Expressions -/

/-- The rules for expressions at the bound `n`. Each of them takes a token, but for those that go on
after an operand. -/
structure Terminating (n : Nat) : Prop where
  expression : ∀ c : Cursor, c.Valued → Progresses (expression n) c (24 * c.rest.length + 16 ≤ n)
  ternary : ∀ c : Cursor, c.Valued → Progresses (ternary n) c (24 * c.rest.length + 15 ≤ n)
  level : ∀ (l : Level) (c : Cursor), c.Valued →
    Progresses (level n l) c (24 * c.rest.length + 2 * (7 - l.rank) + 2 ≤ n)
  operand : ∀ (l : Level) (c : Cursor), c.Valued →
    Progresses (operand n l) c (24 * c.rest.length + 2 * (7 - l.rank) + 1 ≤ n)
  chain : ∀ (l : Level) (lhs : Expr) (c : Cursor), c.Valued →
    Continues (chain n l lhs) c (24 * c.rest.length + 1 ≤ n)
  unary : ∀ c : Cursor, c.Valued → Progresses (unary n) c (24 * c.rest.length + 2 ≤ n)
  suffixes : ∀ (e : Expr) (c : Cursor), c.Valued →
    Continues (suffixes n e) c (24 * c.rest.length + 1 ≤ n)
  arguments : ∀ (count : Nat) (c : Cursor), c.Valued →
    Progresses (arguments n count) c (24 * c.rest.length + 17 ≤ n)
  primary : ∀ c : Cursor, c.Valued → Progresses (primary n) c (24 * c.rest.length + 1 ≤ n)

namespace Terminating

variable {n : Nat} {c : Cursor}

theorem expression_succ (ih : Terminating n) (hc : c.Valued) :
    Progresses (Parser.expression (n + 1)) c (24 * c.rest.length + 16 ≤ n + 1) := by
  rw [Parser.expression]
  refine (ih.ternary c hc).bind (fun _ => Failure.Within.mono (by omega)) fun target c₁ h₁ => ?_
  refine Ensures.accept (fun equals c₂ ht _ => ?_) fun _ => Ensures.pure h₁
  have h₂ := h₁.trans ht.beyond.toOnward
  have hlt := h₂.shorter
  refine (ih.expression c₂ (h₂.valued hc)).bind (fun _ => Failure.Within.mono (by omega))
    fun value c₃ h₃ => ?_
  cases assignment? target value with
  | none => exact Ensures.throw trivial
  | some e => exact Ensures.pure (h₂.trans h₃.toOnward)

theorem ternary_succ (ih : Terminating n) (hc : c.Valued) :
    Progresses (Parser.ternary (n + 1)) c (24 * c.rest.length + 15 ≤ n + 1) := by
  rw [Parser.ternary]
  refine (ih.level .or c hc).bind (fun _ => Failure.Within.mono (by simp only [Level.rank]; omega))
    fun cond c₁ h₁ => ?_
  refine Ensures.accept (fun question c₂ ht _ => ?_) fun _ => Ensures.pure h₁
  have h₂ := h₁.trans ht.beyond.toOnward
  have hlt₂ := h₂.shorter
  refine (ih.expression c₂ (h₂.valued hc)).bind (fun _ => Failure.Within.mono (by omega))
    fun yes c₃ h₃ => ?_
  have h₃ := h₂.trans h₃.toOnward
  refine Ensures.accept (fun colon c₄ ht _ => ?_) fun _ => Ensures.pure h₃
  have h₄ := h₃.trans ht.beyond.toOnward
  have hlt₄ := h₄.shorter
  refine (ih.expression c₄ (h₄.valued hc)).bind (fun _ => Failure.Within.mono (by omega))
    fun no c₅ h₅ => ?_
  exact Ensures.pure (h₄.trans h₅.toOnward)

theorem level_succ (ih : Terminating n) (l : Level) (hc : c.Valued) :
    Progresses (Parser.level (n + 1) l) c (24 * c.rest.length + 2 * (7 - l.rank) + 2 ≤ n + 1) := by
  rw [Parser.level]
  refine (ih.operand l c hc).bind (fun _ => Failure.Within.mono (by omega)) fun lhs c₁ h₁ => ?_
  have hlt := h₁.shorter
  exact (ih.chain l lhs c₁ (h₁.valued hc)).mono (fun _ _ h => h₁.trans h)
    fun _ => Failure.Within.mono (by omega)

theorem operand_succ (ih : Terminating n) (l : Level) (hc : c.Valued) :
    Progresses (Parser.operand (n + 1) l) c
      (24 * c.rest.length + 2 * (7 - l.rank) + 1 ≤ n + 1) := by
  rw [Parser.operand]
  cases ht : l.tighter? with
  | some l' =>
    have hrank := Level.rank_of_tighter? ht
    have hl' := l'.rank_lt_unaryRank
    simp only [unaryRank] at hl'
    exact (ih.level l' c hc).mono (fun _ _ h => h) fun _ => Failure.Within.mono (by omega)
  | none =>
    have hl := l.rank_lt_unaryRank
    simp only [unaryRank] at hl
    exact (ih.unary c hc).mono (fun _ _ h => h) fun _ => Failure.Within.mono (by omega)

theorem chain_succ (ih : Terminating n) (l : Level) (lhs : Expr) (hc : c.Valued) :
    Continues (Parser.chain (n + 1) l lhs) c (24 * c.rest.length + 1 ≤ n + 1) := by
  rw [Parser.chain]
  refine Ensures.acceptAny (fun op c₁ ht _ => ?_) fun _ => Ensures.pure (.refl c)
  have h₁ := ht.beyond
  have hlt₁ := h₁.shorter
  refine (ih.operand l c₁ (h₁.valued hc)).bind (fun _ => Failure.Within.mono (by omega))
    fun rhs c₂ h₂ => ?_
  have h₂ := h₁.trans h₂.toOnward
  have hlt₂ := h₂.shorter
  exact (ih.chain l _ c₂ (h₂.valued hc)).mono (fun _ _ h => h₂.toOnward.trans h)
    fun _ => Failure.Within.mono (by omega)

theorem unary_succ (ih : Terminating n) (hc : c.Valued) :
    Progresses (Parser.unary (n + 1)) c (24 * c.rest.length + 2 ≤ n + 1) := by
  rw [Parser.unary]
  refine Ensures.acceptAny (fun op c₁ ht _ => ?_) fun _ => ?_
  · have h₁ := ht.beyond
    have hlt := h₁.shorter
    refine (ih.unary c₁ (h₁.valued hc)).bind (fun _ => Failure.Within.mono (by omega))
      fun e c₂ h₂ => ?_
    exact Ensures.pure (h₁.trans h₂.toOnward)
  · refine (ih.primary c hc).bind (fun _ => Failure.Within.mono (by omega)) fun e c₁ h₁ => ?_
    have hlt := h₁.shorter
    exact (ih.suffixes e c₁ (h₁.valued hc)).mono (fun _ _ h => h₁.trans h)
      fun _ => Failure.Within.mono (by omega)

theorem suffixes_succ (ih : Terminating n) (e : Expr) (hc : c.Valued) :
    Continues (Parser.suffixes (n + 1) e) c (24 * c.rest.length + 1 ≤ n + 1) := by
  -- whatever the suffix was, tokens have been taken when the next one is looked for
  have goOn : ∀ (e' : Expr) {c₁ : Cursor}, c.Beyond c₁ →
      Ensures (Parser.suffixes n e') c₁ (fun _ c' => c.Onward c')
        (Failure.Within (24 * c.rest.length + 1 ≤ n + 1)) := by
    intro e' c₁ h₁
    have hlt := h₁.shorter
    exact (ih.suffixes e' c₁ (h₁.valued hc)).mono (fun _ _ h => h₁.toOnward.trans h)
      fun _ => Failure.Within.mono (by omega)
  rw [Parser.suffixes]
  refine Ensures.accept (fun t c₁ ht _ => ?_) fun _ => ?_
  · have h₁ := ht.beyond
    have hlt := h₁.shorter
    refine Ensures.sees ?_
    split
    · refine Ensures.pure_bind (Ensures.expect (fun paren c₂ ht _ => ?_) fun _ => trivial)
      exact goOn _ (h₁.trans ht.beyond.toOnward)
    · refine (ih.arguments 0 c₁ (h₁.valued hc)).bind (fun _ => Failure.Within.mono (by omega))
        fun args c₂ h₂ => ?_
      refine Ensures.expect (fun paren c₃ ht _ => ?_) fun _ => trivial
      exact goOn _ ((h₁.trans h₂.toOnward).trans ht.beyond.toOnward)
  · refine Ensures.accept (fun t c₁ ht _ => ?_) fun _ => Ensures.pure (.refl c)
    have h₁ := ht.beyond
    refine Ensures.expect (fun name c₂ ht _ => ?_) fun _ => trivial
    exact goOn _ (h₁.trans ht.beyond.toOnward)

theorem arguments_succ (ih : Terminating n) (count : Nat) (hc : c.Valued) :
    Progresses (Parser.arguments (n + 1) count) c (24 * c.rest.length + 17 ≤ n + 1) := by
  rw [Parser.arguments]
  split_ifs
  · exact Ensures.reject trivial
  refine (ih.expression c hc).bind (fun _ => Failure.Within.mono (by omega)) fun arg c₁ h₁ => ?_
  refine Ensures.accept (fun comma c₂ ht _ => ?_) fun _ => Ensures.pure h₁
  have h₂ := h₁.trans ht.beyond.toOnward
  have hlt := h₂.shorter
  refine (ih.arguments (count + 1) c₂ (h₂.valued hc)).bind
    (fun _ => Failure.Within.mono (by omega)) fun rest c₃ h₃ => ?_
  exact Ensures.pure (h₂.trans h₃.toOnward)

/-- The token of a literal carries a value of the right sort. -/
theorem literal?_ensures (hc : c.Valued) {may : Failure → Prop} :
    Ensures literal? c (fun r c' => match r with
      | some _ => c.Beyond c'
      | none => c' = c) may := by
  unfold literal?
  refine Ensures.acceptAny (fun t c₁ ht hk => ?_) fun _ => Ensures.pure rfl
  have hvalued : t.Valued := hc t (by rw [ht.rest]; exact List.mem_cons_self)
  have hbeyond := ht.beyond
  simp only [List.mem_cons, List.not_mem_nil, or_false] at hk
  rcases hk with hk | hk | hk | hk | hk
  · simp only [hk]
    exact Ensures.pure hbeyond
  · simp only [hk]
    exact Ensures.pure hbeyond
  · simp only [hk]
    exact Ensures.pure hbeyond
  · obtain ⟨x, hx⟩ := hvalued.number hk
    simp only [hk, hx]
    exact Ensures.pure hbeyond
  · obtain ⟨s, hs⟩ := hvalued.text hk
    simp only [hk, hs]
    exact Ensures.pure hbeyond

theorem primary_succ (ih : Terminating n) (hc : c.Valued) :
    Progresses (Parser.primary (n + 1)) c (24 * c.rest.length + 1 ≤ n + 1) := by
  rw [Parser.primary]
  refine (literal?_ensures hc).bind (fun _ h => h) fun r c₁ hr => ?_
  cases r with
  | some e => exact Ensures.pure hr
  | none =>
    cases hr
    refine Ensures.accept (fun name c₂ ht _ => ?_) fun _ => ?_
    · have h₂ := ht.beyond
      exact Ensures.freshId (Ensures.pure
        ⟨⟨h₂.rest, Nat.le_succ_of_le h₂.nextId⟩, h₂.shorter⟩)
    · refine Ensures.accept (fun t c₂ ht _ => ?_) fun _ => Ensures.reject trivial
      have h₂ := ht.beyond
      have hlt := h₂.shorter
      refine (ih.expression c₂ (h₂.valued hc)).bind (fun _ => Failure.Within.mono (by omega))
        fun inner c₃ h₃ => ?_
      refine Ensures.expect (fun t c₄ ht _ => ?_) fun _ => trivial
      exact Ensures.pure ((h₂.trans h₃.toOnward).trans ht.beyond.toOnward)

end Terminating

theorem terminating (n : Nat) : Terminating n := by
  induction n with
  | zero =>
    constructor
    all_goals intros
    all_goals exact Ensures.exhausted (by simp [Failure.Within])
  | succ n ih =>
    exact {
      expression := fun c hc => ih.expression_succ hc
      ternary := fun c hc => ih.ternary_succ hc
      level := fun l c hc => ih.level_succ l hc
      operand := fun l c hc => ih.operand_succ l hc
      chain := fun l lhs c hc => ih.chain_succ l lhs hc
      unary := fun c hc => ih.unary_succ hc
      suffixes := fun e c hc => ih.suffixes_succ e hc
      arguments := fun count c hc => ih.arguments_succ count hc
      primary := fun c hc => ih.primary_succ hc }

/-! ### Statements -/

theorem parameters_terminating (n count : Nat) (c : Cursor) :
    Progresses (parameters n count) c (24 * c.rest.length + 1 ≤ n) := by
  induction n generalizing count c with
  | zero => exact Ensures.exhausted (by simp [Failure.Within])
  | succ n ih =>
    rw [parameters]
    split_ifs
    · exact Ensures.reject trivial
    refine Ensures.expect (fun param c₁ ht _ => ?_) fun _ => trivial
    have h₁ := ht.beyond
    refine Ensures.accept (fun comma c₂ ht _ => ?_) fun _ => Ensures.pure h₁
    have h₂ := h₁.trans ht.beyond.toOnward
    have hlt := h₂.shorter
    refine (ih (count + 1) c₂).bind (fun _ => Failure.Within.mono (by omega)) fun rest c₃ h₃ => ?_
    exact Ensures.pure (h₂.trans h₃.toOnward)

section Simple

variable {n : Nat} {c : Cursor}

/-- An expression and the mark after it. -/
theorem valueThen_terminating {α : Type} {kind : Kind} {cause : ParseCause} (f : Expr → α)
    (hc : c.Valued) :
    Progresses (do
      let value ← expression n
      let _ ← expect kind cause
      return f value) c (24 * c.rest.length + 16 ≤ n) := by
  refine ((terminating n).expression c hc).bind (fun _ h => h) fun value c₁ h₁ => ?_
  refine Ensures.expect (fun t c₂ ht _ => ?_) fun _ => trivial
  exact Ensures.pure (h₁.trans ht.beyond.toOnward)

theorem varDecl_terminating (hc : c.Valued) :
    Progresses (varDecl n) c (24 * c.rest.length + 16 ≤ n) := by
  unfold varDecl
  refine Ensures.expect (fun name c₁ ht _ => ?_) fun _ => trivial
  have h₁ := ht.beyond
  refine Ensures.accept (fun equals c₂ ht _ => ?_) fun _ => ?_
  · have h₂ := h₁.trans ht.beyond.toOnward
    have hlt := h₂.shorter
    exact (valueThen_terminating _ (h₂.valued hc)).mono (fun _ _ h => h₂.trans h.toOnward)
      fun _ => Failure.Within.mono (by omega)
  · refine Ensures.expect (fun t c₂ ht _ => ?_) fun _ => trivial
    exact Ensures.pure (h₁.trans ht.beyond.toOnward)

theorem returnStmt_terminating (keyword : Token) (hc : c.Valued) :
    Progresses (returnStmt n keyword) c (24 * c.rest.length + 16 ≤ n) := by
  unfold returnStmt
  refine Ensures.sees ?_
  split
  · refine Ensures.expect (fun t c₁ ht _ => ?_) fun _ => trivial
    exact Ensures.pure ht.beyond
  · exact valueThen_terminating _ hc

end Simple

/-- The rules for statements at the bound `n`. Each of them takes a token. -/
structure StmtTerminating (n : Nat) : Prop where
  declaration : ∀ c : Cursor, c.Valued → Progresses (declaration n) c (24 * c.rest.length + 18 ≤ n)
  statement : ∀ c : Cursor, c.Valued → Progresses (statement n) c (24 * c.rest.length + 17 ≤ n)
  block : ∀ c : Cursor, c.Valued → Progresses (block n) c (24 * c.rest.length + 19 ≤ n)
  ifStmt : ∀ c : Cursor, c.Valued → Progresses (ifStmt n) c (24 * c.rest.length + 1 ≤ n)
  whileStmt : ∀ (keyword : Token) (c : Cursor), c.Valued →
    Progresses (whileStmt n keyword) c (24 * c.rest.length + 1 ≤ n)
  function : ∀ (kind : FunKind) (c : Cursor), c.Valued →
    Progresses (function n kind) c (24 * c.rest.length + 1 ≤ n)
  classDecl : ∀ c : Cursor, c.Valued → Progresses (classDecl n) c (24 * c.rest.length + 1 ≤ n)
  methods : ∀ c : Cursor, c.Valued → Progresses (methods n) c (24 * c.rest.length + 2 ≤ n)

namespace StmtTerminating

variable {n : Nat} {c : Cursor}

theorem declaration_succ (ih : StmtTerminating n) (hc : c.Valued) :
    Progresses (Parser.declaration (n + 1)) c (24 * c.rest.length + 18 ≤ n + 1) := by
  rw [Parser.declaration]
  refine Ensures.accept (fun t c₁ ht _ => ?_) fun _ => ?_
  · have h₁ := ht.beyond
    have hlt := h₁.shorter
    exact (varDecl_terminating (h₁.valued hc)).mono (fun _ _ h => h₁.trans h.toOnward)
      fun _ => Failure.Within.mono (by omega)
  · exact (ih.statement c hc).mono (fun _ _ h => h) fun _ => Failure.Within.mono (by omega)

theorem statement_succ (ih : StmtTerminating n) (hc : c.Valued) :
    Progresses (Parser.statement (n + 1)) c (24 * c.rest.length + 17 ≤ n + 1) := by
  rw [Parser.statement]
  refine Ensures.acceptAny (fun t c₁ ht hk => ?_) fun _ => ?_
  · have h₁ := ht.beyond
    have hc₁ := h₁.valued hc
    have hlt := h₁.shorter
    -- the keyword was taken, whatever rule comes next
    have after : ∀ {act : Parser Stmt} {enough : Prop}, Progresses act c₁ enough →
        (24 * c.rest.length + 17 ≤ n + 1 → enough) →
        Ensures act c₁ (fun _ c' => c.Beyond c')
          (Failure.Within (24 * c.rest.length + 17 ≤ n + 1)) :=
      fun h hle => h.mono (fun _ _ h => h₁.trans h.toOnward) fun _ => Failure.Within.mono hle
    simp only [List.mem_cons, List.not_mem_nil, or_false] at hk
    rcases hk with hk | hk | hk | hk | hk | hk | hk
    all_goals simp only [hk]
    · exact after (valueThen_terminating _ hc₁) (by omega)
    · exact after (ih.ifStmt c₁ hc₁) (by omega)
    · exact after (ih.whileStmt t c₁ hc₁) (by omega)
    · refine (ih.function .function c₁ hc₁).bind (fun _ => Failure.Within.mono (by omega))
        fun decl c₂ h₂ => ?_
      exact Ensures.pure (h₁.trans h₂.toOnward)
    · exact after (ih.classDecl c₁ hc₁) (by omega)
    · exact after (returnStmt_terminating t hc₁) (by omega)
    · refine (ih.block c₁ hc₁).bind (fun _ => Failure.Within.mono (by omega))
        fun body c₂ h₂ => ?_
      exact Ensures.pure (h₁.trans h₂.toOnward)
  · exact (valueThen_terminating _ hc).mono (fun _ _ h => h) fun _ => Failure.Within.mono (by omega)

theorem block_succ (ih : StmtTerminating n) (hc : c.Valued) :
    Progresses (Parser.block (n + 1)) c (24 * c.rest.length + 19 ≤ n + 1) := by
  rw [Parser.block]
  refine Ensures.sees (Ensures.atEnd ?_)
  split
  · refine Ensures.expect (fun t c₁ ht _ => ?_) fun _ => trivial
    exact Ensures.pure ht.beyond
  · refine (ih.declaration c hc).bind (fun _ => Failure.Within.mono (by omega))
      fun first c₁ h₁ => ?_
    have hlt := h₁.shorter
    refine (ih.block c₁ (h₁.valued hc)).bind (fun _ => Failure.Within.mono (by omega))
      fun rest c₂ h₂ => ?_
    exact Ensures.pure (h₁.trans h₂.toOnward)

/-- A condition between parentheses, after a keyword, and the statement after it. -/
theorem conditional {α : Type} {next : Expr → Stmt → Parser α} {opening closing : ParseCause}
    (ih : StmtTerminating n) (hc : c.Valued)
    (hnext : ∀ cond body c₁, c.Beyond c₁ → Ensures (next cond body) c₁ (fun _ c' => c.Beyond c')
      (Failure.Within (24 * c.rest.length + 1 ≤ n + 1))) :
    Progresses (do
      let _ ← expect .leftParen opening
      let cond ← Parser.expression n
      let _ ← expect .rightParen closing
      let body ← Parser.statement n
      next cond body) c (24 * c.rest.length + 1 ≤ n + 1) := by
  refine Ensures.expect (fun t c₁ ht _ => ?_) fun _ => trivial
  have h₁ := ht.beyond
  have hlt₁ := h₁.shorter
  refine ((terminating n).expression c₁ (h₁.valued hc)).bind
    (fun _ => Failure.Within.mono (by omega)) fun cond c₂ h₂ => ?_
  refine Ensures.expect (fun t c₃ ht _ => ?_) fun _ => trivial
  have h₃ := (h₁.trans h₂.toOnward).trans ht.beyond.toOnward
  have hlt₃ := h₃.shorter
  refine (ih.statement c₃ (h₃.valued hc)).bind (fun _ => Failure.Within.mono (by omega))
    fun body c₄ h₄ => ?_
  exact hnext cond body c₄ (h₃.trans h₄.toOnward)

theorem ifStmt_succ (ih : StmtTerminating n) (hc : c.Valued) :
    Progresses (Parser.ifStmt (n + 1)) c (24 * c.rest.length + 1 ≤ n + 1) := by
  rw [Parser.ifStmt]
  refine conditional ih hc fun cond yes c₁ h₁ => ?_
  refine Ensures.accept (fun t c₂ ht _ => ?_) fun _ => Ensures.pure h₁
  have h₂ := h₁.trans ht.beyond.toOnward
  have hlt := h₂.shorter
  refine (ih.statement c₂ (h₂.valued hc)).bind (fun _ => Failure.Within.mono (by omega))
    fun no c₃ h₃ => ?_
  exact Ensures.pure (h₂.trans h₃.toOnward)

theorem whileStmt_succ (ih : StmtTerminating n) (keyword : Token) (hc : c.Valued) :
    Progresses (Parser.whileStmt (n + 1) keyword) c (24 * c.rest.length + 1 ≤ n + 1) := by
  rw [Parser.whileStmt]
  exact conditional ih hc fun cond body c₁ h₁ => Ensures.pure h₁

theorem function_succ (ih : StmtTerminating n) (kind : FunKind) (hc : c.Valued) :
    Progresses (Parser.function (n + 1) kind) c (24 * c.rest.length + 1 ≤ n + 1) := by
  -- the rest of a function after its parameters
  have body : ∀ {name : Token} {params : List Token} {c₁ : Cursor}, c.Beyond c₁ →
      Ensures (do
        let _ ← expect .rightParen .endOfParameters
        let _ ← expect .leftBrace (.startOfBody kind)
        let body ← Parser.block n
        return FunDecl.mk name params body) c₁ (fun _ c' => c.Beyond c')
        (Failure.Within (24 * c.rest.length + 1 ≤ n + 1)) := by
    intro name params c₁ h₁
    refine Ensures.expect (fun t c₂ ht _ => ?_) fun _ => trivial
    have h₂ := h₁.trans ht.beyond.toOnward
    refine Ensures.expect (fun t c₃ ht _ => ?_) fun _ => trivial
    have h₃ := h₂.trans ht.beyond.toOnward
    have hlt := h₃.shorter
    refine (ih.block c₃ (h₃.valued hc)).bind (fun _ => Failure.Within.mono (by omega))
      fun body c₄ h₄ => ?_
    exact Ensures.pure (h₃.trans h₄.toOnward)
  rw [Parser.function]
  refine Ensures.expect (fun name c₁ ht _ => ?_) fun _ => trivial
  have h₁ := ht.beyond
  refine Ensures.expect (fun t c₂ ht _ => ?_) fun _ => trivial
  have h₂ := h₁.trans ht.beyond.toOnward
  have hlt := h₂.shorter
  refine Ensures.sees ?_
  split
  · exact Ensures.pure_bind (body h₂)
  · refine (parameters_terminating n 0 c₂).bind (fun _ => Failure.Within.mono (by omega))
      fun params c₃ h₃ => ?_
    exact body (h₂.trans h₃.toOnward)

theorem classDecl_succ (ih : StmtTerminating n) (hc : c.Valued) :
    Progresses (Parser.classDecl (n + 1)) c (24 * c.rest.length + 1 ≤ n + 1) := by
  rw [Parser.classDecl]
  refine Ensures.expect (fun name c₁ ht _ => ?_) fun _ => trivial
  have h₁ := ht.beyond
  refine Ensures.expect (fun t c₂ ht _ => ?_) fun _ => trivial
  have h₂ := h₁.trans ht.beyond.toOnward
  have hlt := h₂.shorter
  refine (ih.methods c₂ (h₂.valued hc)).bind (fun _ => Failure.Within.mono (by omega))
    fun methods c₃ h₃ => ?_
  exact Ensures.pure (h₂.trans h₃.toOnward)

theorem methods_succ (ih : StmtTerminating n) (hc : c.Valued) :
    Progresses (Parser.methods (n + 1)) c (24 * c.rest.length + 2 ≤ n + 1) := by
  rw [Parser.methods]
  refine Ensures.sees (Ensures.atEnd ?_)
  split
  · refine Ensures.expect (fun t c₁ ht _ => ?_) fun _ => trivial
    exact Ensures.pure ht.beyond
  · refine (ih.function .method c hc).bind (fun _ => Failure.Within.mono (by omega))
      fun first c₁ h₁ => ?_
    have hlt := h₁.shorter
    refine (ih.methods c₁ (h₁.valued hc)).bind (fun _ => Failure.Within.mono (by omega))
      fun rest c₂ h₂ => ?_
    exact Ensures.pure (h₁.trans h₂.toOnward)

end StmtTerminating

theorem stmtTerminating (n : Nat) : StmtTerminating n := by
  induction n with
  | zero =>
    constructor
    all_goals intros
    all_goals exact Ensures.exhausted (by simp [Failure.Within])
  | succ n ih =>
    exact {
      declaration := fun c hc => ih.declaration_succ hc
      statement := fun c hc => ih.statement_succ hc
      block := fun c hc => ih.block_succ hc
      ifStmt := fun c hc => ih.ifStmt_succ hc
      whileStmt := fun keyword c hc => ih.whileStmt_succ keyword hc
      function := fun kind c hc => ih.function_succ kind hc
      classDecl := fun c hc => ih.classDecl_succ hc
      methods := fun c hc => ih.methods_succ hc }

theorem statements_terminating (n : Nat) (c : Cursor) (hc : c.Valued) :
    Continues (statements n) c (24 * c.rest.length + 19 ≤ n) := by
  induction n generalizing c with
  | zero => exact Ensures.exhausted (by simp [Failure.Within])
  | succ n ih =>
    rw [statements]
    refine Ensures.atEnd ?_
    split
    · exact Ensures.pure (.refl c)
    · refine ((stmtTerminating n).declaration c hc).bind (fun _ => Failure.Within.mono (by omega))
        fun first c₁ h₁ => ?_
      have hlt := h₁.shorter
      refine (ih c₁ (h₁.valued hc)).bind (fun _ => Failure.Within.mono (by omega))
        fun rest c₂ h₂ => ?_
      exact Ensures.pure (h₁.toOnward.trans h₂)

end Parser

end Wandika
