import Wandika.Proofs.Parser.Acceptance
import Wandika.Proofs.Parser.Blame
import Wandika.Proofs.Parser.Bounds
import Wandika.Proofs.Parser.Lookahead

/-!
# Where the parser stops

The token that the parser rejects is the first one that cannot continue a program: whatever stands
behind it, it is rejected, and what stands before it can be completed.

* `Parser.BlamesStmt`, `Parser.statements_blames`: what the rules for statements blame, and the rule
  for programs;
* `Token.sample`: a token of every kind, to complete a program with;
* `Program.parse_of_derives`: standard tokens are accepted if their kinds are derivable;
* `Parser.Misplaced.reported`: a misplaced assignment is told from the causes of rejections;
* `rejection_localised`: where a text is rejected, and what could have stood there.
-/

namespace Wandika

open Grammar Grammar.Form

namespace Parser

/-! ### Statements -/

variable {n : Nat} {c c₀ : Cursor}

/-- After too many parameters, nothing is blamed but their number. -/
theorem parameters_limit {count : Nat} (h : maxArguments ≤ count) {a : Form} :
    Blames c₀ (parameters n count) c a := by
  cases n with
  | zero => exact .exhausted
  | succ n =>
    rw [parameters, if_pos h]
    exact .reject_limit (by simp [limitCauses])

theorem parameters_blames (n count : Nat) (c : Cursor) (hc : c.Standard) :
    Blames c (parameters n count) c (listFrom (tok .identifier) count) := by
  induction n generalizing count c with
  | zero => exact .exhausted
  | succ n ih =>
    have hnil : Viable (listFrom (tok .identifier) count) [] :=
      viable_listFrom_of_member (viable_nil_tok _)
    rw [parameters]
    split_ifs with hcount
    · exact .reject_limit (by simp [limitCauses])
    refine .expect ((Cursor.Spells.refl c).opens hnil) fun param c₁ hp hk => ?_
    refine .accept (fun t c₂ hm hk' => ?_) (.pure _)
    have hc₂ := hm.reads.standard (hp.reads.standard hc)
    have hu := (hp.spells hk).trans (hm.spells hk')
    refine .bind (.parameters (Nat.le_refl n) _) (parameters_ensures n _ c₂ hc₂) ?_
      fun _ _ _ _ => .pure _
    by_cases hlast : count < 254
    · refine (ih (count + 1) c₂ hc₂).within hu fun w h => ?_
      exact viable_listFrom_append hlast (.tok .identifier) h
    · refine parameters_limit ?_
      simp only [maxArguments]
      omega

/-- A value and the semicolon after it. -/
theorem value_blames {α : Type} {a : Form} {u : List Kind} {cause : ParseCause} {give : Expr → α}
    (hc : c.Standard) (hu : c₀.Spells u c)
    (hplace : ∀ w, Viable (rule .expr) w → Viable a (u ++ w)) :
    Blames c₀ (do
      let value ← expression n
      let _ ← expect .semicolon cause
      return give value) c a := by
  refine .bind (Deepens.expressions (Nat.le_refl n)).expression ((exprRules n).expression c hc)
    (((blamesExpr n).expression c hc).within hu hplace) fun value c₁ _ hv => ?_
  have hvalue : Derives (rule .expr) (Sign.kinds value.yield) := hv.derives
  exact .expect ((hu.trans hv.reads.spells).opens (hplace _ hvalue.viable)) fun _ _ _ _ => .pure _

theorem varDecl_blames (hc : c.Standard) (hw : c₀.Spells [.varWord] c) :
    Blames c₀ (varDecl n) c (rule .varDecl) := by
  have hinit := viable_init (viable_nil_expr 0)
  unfold varDecl
  refine .expect (hw.opens (hinit.of_append (u := [_]))) fun name c₁ hn hk => ?_
  have hu := hw.trans (hn.spells hk)
  refine .accept (fun t c₂ hm hk' => ?_) ?_
  · exact value_blames (hm.reads.standard (hn.reads.standard hc)) (hu.trans (hm.spells hk'))
      fun w => viable_init
  · exact .expect (hu.opens (hinit.of_append (u := [_, _]))) fun _ _ _ _ => .pure _

theorem printStmt_blames (hc : c.Standard) (hw : c₀.Spells [.printWord] c) :
    Blames c₀ (printStmt n) c (rule .printStmt) :=
  value_blames hc hw fun _ => viable_printed

theorem returnStmt_blames (keyword : Token) (hc : c.Standard) (hw : c₀.Spells [.returnWord] c) :
    Blames c₀ (returnStmt n keyword) c (rule .returnStmt) := by
  unfold returnStmt
  refine .sees ?_
  split
  · exact .expect (hw.opens (viable_returned (viable_nil_expr 0))) fun _ _ _ _ => .pure _
  · exact value_blames hc hw fun _ => viable_returned

theorem exprStmt_blames (hc : c.Standard) : Blames c (exprStmt n) c (rule .exprStmt) :=
  value_blames hc (.refl c) fun _ => viable_exprStmt

/-- What the rules for statements blame at the bound `n`. -/
structure BlamesStmt (n : Nat) : Prop where
  declaration : ∀ c : Cursor, c.Standard → Blames c (declaration n) c (rule .declaration)
  statement : ∀ c : Cursor, c.Standard → Blames c (statement n) c (rule .statement)
  block : ∀ c : Cursor, c.Standard →
    Blames c (block n) c (closing (rule .declaration) .rightBrace)
  ifStmt : ∀ c₀ c : Cursor, c.Standard → c₀.Spells [.ifWord] c →
    Blames c₀ (ifStmt n) c (rule .ifStmt)
  whileStmt : ∀ (keyword : Token) (c₀ c : Cursor), c.Standard → c₀.Spells [.whileWord] c →
    Blames c₀ (whileStmt n keyword) c (rule .whileStmt)
  function : ∀ (kind : FunKind) (c : Cursor), c.Standard →
    Blames c (function n kind) c (rule .function)
  classDecl : ∀ c₀ c : Cursor, c.Standard → c₀.Spells [.classWord] c →
    Blames c₀ (classDecl n) c (rule .classDecl)
  methods : ∀ c : Cursor, c.Standard →
    Blames c (methods n) c (closing (rule .function) .rightBrace)

namespace BlamesStmt

theorem declaration_succ (ih : BlamesStmt n) (hc : c.Standard) :
    Blames c (Parser.declaration (n + 1)) c (rule .declaration) := by
  rw [Parser.declaration]
  refine .accept (fun t c₁ hw hk => ?_) ?_
  · exact (varDecl_blames (hw.reads.standard hc) (hw.spells hk)).mono
      fun w => viable_declaration_of_varDecl
  · exact (ih.statement c hc).mono fun w => viable_declaration_of_statement

theorem statement_succ (ih : BlamesStmt n) (hc : c.Standard) :
    Blames c (Parser.statement (n + 1)) c (rule .statement) := by
  have composed := Deepens.rules (Nat.le_refl n)
  -- whatever is viable for a sort of statement is viable for a statement
  have sort : ∀ r ∈ statementRules, ∀ w, Viable (rule r) w → Viable (rule .statement) w :=
    fun r hr w => viable_statement hr
  rw [Parser.statement]
  refine .acceptAny (fun t c₁ ht hk => ?_) ?_
  · have hc₁ := ht.reads.standard hc
    simp only [List.mem_cons, List.not_mem_nil, or_false] at hk
    rcases hk with hk | hk | hk | hk | hk | hk | hk
    all_goals simp only [hk]
    · exact (printStmt_blames hc₁ (ht.spells hk)).mono (sort _ (by simp [statementRules]))
    · exact (ih.ifStmt c c₁ hc₁ (ht.spells hk)).mono (sort _ (by simp [statementRules]))
    · exact (ih.whileStmt t c c₁ hc₁ (ht.spells hk)).mono (sort _ (by simp [statementRules]))
    · refine .bind (composed.function _) ((stmtRules n).function _ c₁ hc₁)
        ((ih.function _ c₁ hc₁).within (ht.spells hk) fun w h => ?_) fun _ _ _ _ => .pure _
      exact sort .funcDecl (by simp [statementRules]) _ (viable_function h)
    · exact (ih.classDecl c c₁ hc₁ (ht.spells hk)).mono (sort _ (by simp [statementRules]))
    · exact (returnStmt_blames t hc₁ (ht.spells hk)).mono (sort _ (by simp [statementRules]))
    · refine .bind composed.block ((stmtRules n).block c₁ hc₁)
        ((ih.block c₁ hc₁).within (ht.spells hk) fun w h => ?_) fun _ _ _ _ => .pure _
      exact sort .block (by simp [statementRules]) _ (viable_block h)
  · exact (exprStmt_blames hc).mono (sort _ (by simp [statementRules]))

theorem block_succ (ih : BlamesStmt n) (hc : c.Standard) :
    Blames c (Parser.block (n + 1)) c (closing (rule .declaration) .rightBrace) := by
  have composed := Deepens.rules (Nat.le_refl n)
  rw [Parser.block]
  refine .sees (.atEnd ?_)
  split
  · exact .expect ((Cursor.Spells.refl c).opens (viable_nil_closing _ _)) fun _ _ _ _ => .pure _
  · refine .bind composed.declaration ((stmtRules n).declaration c hc)
      ((ih.declaration c hc).mono fun w => viable_closing_of_member) fun first c₁ _ hf => ?_
    have hc₁ := hf.reads.standard hc
    refine .bind composed.block ((stmtRules n).block c₁ hc₁)
      ((ih.block c₁ hc₁).within hf.reads.spells fun w => ?_) fun _ _ _ _ => .pure _
    exact viable_closing_append (derives_declaration (derives_stmt hf.shaped))

/-- A condition in parentheses after its keyword, and what follows it. -/
theorem condition_blames {α : Type} {k : Kind} {a : Form} {start stop : ParseCause}
    {next : Expr → Parser α} (hc : c.Standard) (hw : c₀.Spells [k] c)
    (hplace : ∀ w, Viable (rule .expr) w → Viable a (k :: .leftParen :: w))
    (hn : ∀ cond c', c'.Standard → Derives (rule .expr) (Sign.kinds cond.yield) →
      c₀.Spells (k :: .leftParen :: (Sign.kinds cond.yield ++ [.rightParen])) c' →
      Blames c₀ (next cond) c' a) :
    Blames c₀ (do
      let _ ← expect .leftParen start
      let cond ← expression n
      let _ ← expect .rightParen stop
      next cond) c a := by
  have hnil := hplace [] (viable_nil_expr 0)
  refine .expect (hw.opens (hnil.of_append (u := [k]))) fun t c₁ hp hk => ?_
  have hc₁ := hp.reads.standard hc
  have hu := hw.trans (hp.spells hk)
  refine .bind (Deepens.expressions (Nat.le_refl n)).expression ((exprRules n).expression c₁ hc₁)
    (((blamesExpr n).expression c₁ hc₁).within hu hplace) fun cond c₂ _ hcond => ?_
  have hcond' : Derives (rule .expr) (Sign.kinds cond.yield) := hcond.derives
  have hv := hu.trans hcond.reads.spells
  refine .expect (hv.opens (hplace _ hcond'.viable)) fun t c₃ hr hk' => ?_
  exact hn cond c₃ (hr.reads.standard (hcond.standard hc₁)) hcond' (hv.trans (hr.spells hk'))

theorem ifStmt_succ (ih : BlamesStmt n) (hc : c.Standard) (hw : c₀.Spells [.ifWord] c) :
    Blames c₀ (Parser.ifStmt (n + 1)) c (rule .ifStmt) := by
  have composed := Deepens.rules (Nat.le_refl n)
  rw [Parser.ifStmt]
  refine condition_blames hc hw (fun w => viable_ifCondition) fun cond c₁ hc₁ hcond hu => ?_
  refine .bind composed.statement ((stmtRules n).statement c₁ hc₁)
    ((ih.statement c₁ hc₁).within hu fun w h => ?_) ?_
  · simpa using viable_then hcond h
  rintro yes c₂ - ⟨hy, hyv⟩
  have hyes : Derives (rule .statement) (Sign.kinds yes.yield) :=
    Stmt.rule_of_not_varDecl hyv ▸ derives_stmt hy.shaped
  refine .accept (fun t c₃ he hk => ?_) (.pure _)
  have hc₃ := he.reads.standard (hy.reads.standard hc₁)
  have hv := hu.trans (hy.reads.spells.trans (he.spells hk))
  refine .bind composed.statement ((stmtRules n).statement c₃ hc₃)
    ((ih.statement c₃ hc₃).within hv fun w h => ?_) fun _ _ _ _ => .pure _
  simpa using viable_else hcond hyes h

theorem whileStmt_succ (ih : BlamesStmt n) (keyword : Token) (hc : c.Standard)
    (hw : c₀.Spells [.whileWord] c) :
    Blames c₀ (Parser.whileStmt (n + 1) keyword) c (rule .whileStmt) := by
  have composed := Deepens.rules (Nat.le_refl n)
  rw [Parser.whileStmt]
  refine condition_blames hc hw (fun w => viable_loopCondition) fun cond c₁ hc₁ hcond hu => ?_
  refine .bind composed.statement ((stmtRules n).statement c₁ hc₁)
    ((ih.statement c₁ hc₁).within hu fun w h => ?_) fun _ _ _ _ => .pure _
  simpa using viable_loopBody hcond h

theorem function_succ (ih : BlamesStmt n) (kind : FunKind) (hc : c.Standard) :
    Blames c (Parser.function (n + 1) kind) c (rule .function) := by
  have composed := Deepens.rules (Nat.le_refl n)
  have hnil : Viable (listFrom (tok .identifier) 0) [] :=
    viable_listFrom_of_member (viable_nil_tok _)
  rw [Parser.function]
  refine .expect ((Cursor.Spells.refl c).opens ((viable_parameters hnil).of_append (u := [])))
    fun name c₁ hn hk => ?_
  refine .expect ((hn.spells hk).opens ((viable_parameters hnil).of_append (u := [_])))
    fun t c₂ hp hk' => ?_
  have hc₂ := hp.reads.standard (hn.reads.standard hc)
  have hu := (hn.spells hk).trans (hp.spells hk')
  -- what follows the parameters, whether there are any or not
  have body : ∀ (params : List Token) (c₃ : Cursor), c₃.Standard →
      c₂.Spells (Sign.kinds (Token.yieldAll params)) c₃ →
      Derives (opt (rule .params)) (Sign.kinds (Token.yieldAll params)) →
      Blames c (do
        let _ ← expect .rightParen .endOfParameters
        let _ ← expect .leftBrace (.startOfBody kind)
        let body ← Parser.block n
        return FunDecl.mk name params body) c₃ (rule .function) := by
    intro params c₃ hc₃ hps hparams
    have hplace : ∀ w, Viable (closing (rule .declaration) .rightBrace) w →
        Viable (rule .function) (.identifier :: .leftParen ::
          (Sign.kinds (Token.yieldAll params) ++ .rightParen :: .leftBrace :: w)) :=
      fun w h => viable_body hparams (viable_block h)
    have hall := hplace [] (viable_nil_closing _ _)
    have hv := hu.trans hps
    refine .expect (hv.opens ?_) fun t c₄ hr hk => ?_
    · exact .of_append (w := [.rightParen, .leftBrace]) (by simpa using hall)
    have hv := hv.trans (hr.spells hk)
    refine .expect (hv.opens ?_) fun t c₅ hb hk => ?_
    · exact .of_append (w := [.leftBrace]) (by simpa using hall)
    have hv := hv.trans (hb.spells hk)
    have hc₅ := hb.reads.standard (hr.reads.standard hc₃)
    refine .bind composed.block ((stmtRules n).block c₅ hc₅)
      ((ih.block c₅ hc₅).within hv fun w h => ?_) fun _ _ _ _ => .pure _
    simpa using hplace w h
  refine .sees ?_
  split
  · exact .pure_bind (body [] c₂ hc₂ (.refl c₂) .absent)
  · refine .bind (.parameters (Nat.le_refl n) 0) (parameters_ensures n 0 c₂ hc₂)
      ((parameters_blames n 0 c₂ hc₂).within hu fun w => viable_parameters)
      fun params c₃ _ hps => ?_
    exact body params c₃ (hps.reads.standard hc₂) hps.reads.spells
      (derives_optParams (by simpa using hps.length_le) hps.kind)

theorem classDecl_succ (ih : BlamesStmt n) (hc : c.Standard) (hw : c₀.Spells [.classWord] c) :
    Blames c₀ (Parser.classDecl (n + 1)) c (rule .classDecl) := by
  have composed := Deepens.rules (Nat.le_refl n)
  have hall := viable_class (viable_nil_closing (rule .function) .rightBrace)
  rw [Parser.classDecl]
  refine .expect (hw.opens (hall.of_append (u := [_]))) fun name c₁ hn hk => ?_
  have hu := hw.trans (hn.spells hk)
  refine .expect (hu.opens (hall.of_append (u := [_, _]))) fun t c₂ hb hk' => ?_
  have hc₂ := hb.reads.standard (hn.reads.standard hc)
  refine .bind composed.methods ((stmtRules n).methods c₂ hc₂)
    ((ih.methods c₂ hc₂).within (hu.trans (hb.spells hk')) fun w => viable_class)
    fun _ _ _ _ => .pure _

theorem methods_succ (ih : BlamesStmt n) (hc : c.Standard) :
    Blames c (Parser.methods (n + 1)) c (closing (rule .function) .rightBrace) := by
  have composed := Deepens.rules (Nat.le_refl n)
  rw [Parser.methods]
  refine .sees (.atEnd ?_)
  split
  · exact .expect ((Cursor.Spells.refl c).opens (viable_nil_closing _ _)) fun _ _ _ _ => .pure _
  · refine .bind (composed.function _) ((stmtRules n).function .method c hc)
      ((ih.function _ c hc).mono fun w => viable_closing_of_member) fun first c₁ _ hf => ?_
    have hc₁ := hf.reads.standard hc
    refine .bind composed.methods ((stmtRules n).methods c₁ hc₁)
      ((ih.methods c₁ hc₁).within hf.reads.spells fun w => ?_) fun _ _ _ _ => .pure _
    exact viable_closing_append (derives_function hf.shaped)

end BlamesStmt

/-- What the rules for statements blame at every bound. -/
theorem blamesStmt (n : Nat) : BlamesStmt n := by
  induction n with
  | zero =>
    constructor
    all_goals intros
    all_goals exact .exhausted
  | succ n ih =>
    exact {
      declaration := fun c hc => ih.declaration_succ hc
      statement := fun c hc => ih.statement_succ hc
      block := fun c hc => ih.block_succ hc
      ifStmt := fun c₀ c hc hw => ih.ifStmt_succ hc hw
      whileStmt := fun keyword c₀ c hc hw => ih.whileStmt_succ keyword hc hw
      function := fun kind c hc => ih.function_succ kind hc
      classDecl := fun c₀ c hc hw => ih.classDecl_succ hc hw
      methods := fun c hc => ih.methods_succ hc }

/-- The statements of a program are followed by its end mark. -/
theorem statements_blames (n : Nat) (c : Cursor) (hc : c.Standard) :
    Blames c (statements n) c (rule .program) := by
  suffices Blames c (statements n) c (closing (rule .declaration) .eof) from
    this.mono fun w h => .rule h
  induction n generalizing c with
  | zero => exact .exhausted
  | succ n ih =>
    rw [statements]
    refine .atEnd ?_
    split
    · exact .pure []
    · refine .bind (Deepens.rules (Nat.le_refl n)).declaration ((stmtRules n).declaration c hc)
        (((blamesStmt n).declaration c hc).mono fun w => viable_closing_of_member)
        fun first c₁ _ hf => ?_
      have hc₁ := hf.reads.standard hc
      refine .bind (.statements (Nat.le_refl n)) (statements_ensures n c₁ hc₁)
        ((ih c₁ hc₁).within hf.reads.spells fun w => ?_) fun _ _ _ _ => .pure _
      exact viable_closing_append (derives_declaration (derives_stmt hf.shaped))

end Parser

/-! ### Completions -/

/-- A token of the kind, which stands nowhere. -/
def Token.sample : Kind → Token
  | .number => { kind := .number, lexeme := "0", literal := some (.number 0) }
  | .string => { kind := .string, lexeme := "\"\"", literal := some (.text "") }
  | k => { kind := k, lexeme := k.spelling }

theorem Token.kind_sample (k : Kind) : (Token.sample k).kind = k := by
  unfold Token.sample
  split <;> rfl

theorem Token.standard_sample (k : Kind) : (Token.sample k).Standard := by
  unfold Token.sample
  split
  · exact ⟨0, rfl⟩
  · exact ⟨"", rfl, rfl⟩
  · rename_i hnumber hstring
    unfold Token.Standard
    dsimp only
    split
    · trivial
    · exact absurd rfl hnumber
    · exact absurd rfl hstring
    · rfl

section Derivable

variable {ts : List Token}

/-- Standard tokens of a derivable program are complete. -/
theorem Complete.of_derives (hs : ∀ t ∈ ts, t.Standard)
    (h : Derives (rule .program) (ts.map Token.kind)) : Complete ts := by
  refine ⟨?_, fun t ht => (hs t ht).valued⟩
  obtain ⟨kinds, hkinds, hnot⟩ := derives_program_ends h
  obtain ⟨body, last, rfl, rfl, hlast⟩ := List.map_eq_append_iff.1 hkinds
  obtain ⟨mark, rest, rfl, hmark, hrest⟩ := List.map_eq_cons_iff.1 hlast
  obtain rfl := List.map_eq_nil_iff.1 hrest
  refine ⟨body, mark, rfl, hmark, fun t ht hk => hnot ?_⟩
  exact hk ▸ List.mem_map_of_mem ht

/-- Nothing but the end mark is the last of complete tokens. -/
theorem Complete.rest_ne_nil {us rest : List Token} {t : Token} (hts : Complete ts)
    (h : ts = us ++ t :: rest) (hk : t.kind ≠ .eof) : rest ≠ [] := by
  rintro rfl
  obtain ⟨body, mark, hbody, hmark, -⟩ := hts.ends
  obtain ⟨-, hlast⟩ := List.append_inj' (h.symm.trans hbody) rfl
  obtain rfl : t = mark := by simpa using hlast
  exact hk hmark

/-- Standard tokens of a derivable program are accepted. -/
theorem Program.parse_of_derives (hs : ∀ t ∈ ts, t.Standard)
    (h : Derives (rule .program) (ts.map Token.kind)) :
    ∃ q c, Program.parse { rest := ts } = (.ok q, c) := by
  rcases (Parser.program_derived (c := { rest := ts }) h).parse_cases with
    ⟨q, c, hq, -⟩ | ⟨e, c, he, hother⟩
  · exact ⟨q, c, hq⟩
  · rcases (Parser.program_ensures { rest := ts } hs).parse_cases with
      ⟨q, c', hq, -⟩ | ⟨e', c', he', hwithin⟩
    · exact ⟨q, c', hq⟩
    · -- it fails neither by a rejection nor otherwise
      obtain rfl : e = e' := by simpa using (Prod.mk.inj (he.symm.trans he')).1
      cases e with
      | rejected => exact hother.elim
      | malformed => exact hwithin.elim
      | exhausted => exact absurd trivial hwithin

end Derivable

/-! ### Misplaced assignments -/

/-- The cause for which a token is rejected, if one is. -/
def Program.cause? (c : Cursor) : Option ParseCause :=
  match (Program.parse c).1 with
  | .error (.rejected e) => some e.cause
  | _ => none

theorem Program.cause?_of_rejected {c c' : Cursor} {e : ParseError}
    (h : Program.parse c = (.error (.rejected e), c')) : Program.cause? c = some e.cause := by
  unfold Program.cause?
  rw [h]

/-- Tokens for which a cause is found are rejected for it. -/
theorem Program.rejected_of_cause? {c : Cursor} {cause : ParseCause}
    (h : Program.cause? c = some cause) :
    ∃ e c', Program.parse c = (.error (.rejected e), c') ∧ e.cause = cause := by
  unfold Program.cause? at h
  generalize Program.parse c = o at h
  obtain ⟨r, c'⟩ := o
  cases r with
  | ok q => cases h
  | error f =>
    cases f with
    | rejected e => exact ⟨e, c', rfl, Option.some.inj h⟩
    | malformed t => cases h
    | exhausted => cases h

namespace Parser

variable {α β : Type} {act : Parser α} {sub : Parser β} {c d : Cursor}

/-- A run within a run begins at the cursor of the outer one or behind it. -/
theorem Reaches.onward (h : Reaches act c sub d) : c.Onward d := by
  induction h with
  | here act c => exact .refl c
  | first _ ih => exact ih
  | @later _ _ _ act _ _ _ c _ _ hact hrun _ ih =>
    have honward := hact.onward c
    rw [outcome_of_ok hrun] at honward
    exact honward.trans ih

/-- Whatever comes after the token where a run within a run begins, if the inner run fails, then so
does the outer one. -/
theorem Reaches.outcome_error (h : Reaches act c sub d) {us : List Token} {d' d'' : Cursor}
    {f : Failure} (hc : c.rest = us ++ d.rest) (halike : d.Alike d')
    (hsub : outcome sub d' = (.error f, d'')) :
    outcome act ⟨us ++ d'.rest, c.nextId⟩ = (.error f, d'') := by
  induction h generalizing us with
  | here act c =>
    obtain rfl : us = [] := List.self_eq_append_left.1 hc
    rw [← halike.nextId]
    exact hsub
  | first _ ih => rw [outcome_bind, ih hc halike hsub]
  | @later _ _ _ act next _ b c c₁ d hact hrun hreach ih =>
    have honward := hact.onward c
    rw [outcome_of_ok hrun] at honward
    obtain ⟨us₁, hus₁⟩ := honward.rest
    obtain ⟨us₂, hus₂⟩ := hreach.onward.rest
    obtain rfl : us = us₁ ++ us₂ := by
      rw [← hus₁, ← hus₂, ← List.append_assoc] at hc
      exact (List.append_cancel_right hc).symm
    have hmiddle := halike.after us₂ c₁.nextId
    rw [hus₂] at hmiddle
    have hlook := hact.looksAhead us₁ c₁ _ c.nextId (.ok b)
      (by rw [hus₁]; exact outcome_of_ok hrun) hmiddle
    rw [outcome_bind, List.append_assoc, hlook]
    exact ih hus₂.symm halike hsub

/-- The shortest value, unless the bound on the depth of rules is reached. -/
theorem outcome_expression_nil (n id : Nat) :
    (outcome (expression n) ⟨[Token.sample .nilWord], id⟩).1 = .error .exhausted ∨
      outcome (expression n) ⟨[Token.sample .nilWord], id⟩ = (.ok (.literal .nil), ⟨[], id⟩) := by
  have henough : outcome (expression 18) ⟨[Token.sample .nilWord], id⟩ =
      (.ok (.literal .nil), ⟨[], id⟩) := rfl
  rcases Nat.le_total n 18 with hn | hn
  · rcases (Deepens.expressions hn).expression.outcome_eq ⟨[Token.sample .nilWord], id⟩ with h | h
    · exact Or.inl h
    · exact Or.inr (h.symm.trans henough)
  · rcases (Deepens.expressions hn).expression.outcome_eq ⟨[Token.sample .nilWord], id⟩ with h | h
    · rw [henough] at h
      cases h
    · exact Or.inr (h.trans henough)

theorem assignment?_eq_none {target : Expr} (h : ¬ IsTarget target) (value : Expr) :
    assignment? target value = none := by
  unfold assignment?
  split
  · exact absurd (Or.inl ⟨_, _, rfl⟩) h
  · exact absurd (Or.inr ⟨_, _, rfl⟩) h
  · rfl

/-- After what is no target, an assignment of the shortest value is rejected, unless the bound on
the depth of rules is reached. -/
theorem outcome_misplaced {n id id' : Nat} {us : List Token} {equals : Token} {target : Expr}
    (hternary : outcome (ternary n) ⟨us ++ [equals, Token.sample .nilWord], id⟩ =
      (.ok target, ⟨[equals, Token.sample .nilWord], id'⟩))
    (hk : equals.kind = .equal) (hno : ¬ IsTarget target) :
    ∃ f d', outcome (expression (n + 1)) ⟨us ++ [equals, Token.sample .nilWord], id⟩ =
      (.error f, d') ∧ (f = .exhausted ∨ f = .rejected ⟨equals, .invalidTarget⟩) := by
  have haccept : outcome (accept .equal) ⟨[equals, Token.sample .nilWord], id'⟩ =
      (.ok (some equals), ⟨[Token.sample .nilWord], id'⟩) := by
    simp [outcome, accept, acceptAny, Cursor.sees, Cursor.atEnd, Cursor.peek, Cursor.advance, hk]
  rw [expression, outcome_bind, hternary]
  dsimp only
  rw [outcome_bind, haccept]
  dsimp only
  rw [outcome_bind]
  rcases outcome_expression_nil n id' with hvalue | hvalue
  · generalize outcome (expression n) ⟨[Token.sample .nilWord], id'⟩ = o at hvalue
    obtain ⟨r, d'⟩ := o
    cases hvalue
    exact ⟨_, _, rfl, Or.inl rfl⟩
  · rw [hvalue]
    dsimp only
    rw [assignment?_eq_none hno]
    exact ⟨_, _, rfl, Or.inr rfl⟩

/-- The run that takes the mark of a misplaced assignment fails when the shortest value and nothing
else follows the mark. -/
theorem Misplaced.outcome_error (h : Misplaced act c) :
    ∃ us equals rest f d', c.rest = us ++ equals :: rest ∧ equals.kind = .equal ∧
      outcome act ⟨us ++ [equals, Token.sample .nilWord], c.nextId⟩ = (.error f, d') ∧
      (f = .exhausted ∨ f = .rejected ⟨equals, .invalidTarget⟩) := by
  obtain ⟨n, d, target, d₁, hreach, hternary, hsees, hno⟩ := h
  obtain ⟨htakes, hk⟩ := Cursor.sees_eq_true hsees
  have composed := (Deepens.expressions (Nat.le_refl n)).ternary
  have honward := composed.onward d
  rw [outcome_of_ok hternary] at honward
  obtain ⟨us, hus⟩ := hreach.onward.rest
  obtain ⟨vs, hvs⟩ := honward.rest
  have halike : d₁.Alike ⟨[d₁.peek, Token.sample .nilWord], d₁.nextId⟩ :=
    ⟨by rw [htakes.rest]; rfl, rfl⟩
  have hlook := composed.looksAhead vs d₁ _ d.nextId _
    (by rw [hvs]; exact outcome_of_ok hternary) halike
  obtain ⟨f, d', houtcome, hf⟩ := outcome_misplaced hlook hk hno
  have hd := halike.after vs d.nextId
  rw [hvs] at hd
  have hfails := hreach.outcome_error hus.symm hd houtcome
  refine ⟨us ++ vs, d₁.peek, d₁.advance.rest, f, d', ?_, hk, ?_, hf⟩
  · rw [List.append_assoc, ← htakes.rest, ← hus, ← hvs]
  · rw [List.append_assoc]
    exact hfails

/-- A misplaced assignment is reported as soon as its value has been read, and so it is reported
when its value is the shortest one. -/
theorem Misplaced.reported {ts : List Token} (hts : Complete ts)
    (h : Misplaced (statements (depthFor { rest := ts })) { rest := ts }) :
    ∃ i < ts.length, Program.cause? { rest := ts.take (i + 1) ++ [Token.sample .nilWord] } =
      some .invalidTarget := by
  obtain ⟨us, equals, rest, f, d', hall, hk, hfails, hf⟩ := h.outcome_error
  have hall : ts = us ++ equals :: rest := hall
  have hrest := List.length_pos_of_ne_nil (hts.rest_ne_nil hall (by simp [hk]))
  have hlength : ts.length = us.length + (rest.length + 1) :=
    (congrArg List.length hall).trans List.length_append
  refine ⟨us.length, by omega, ?_⟩
  have hcut : ts.take (us.length + 1) ++ [Token.sample .nilWord] =
      us ++ [equals, Token.sample .nilWord] := by
    rw [hall, List.take_length_add_append]
    simp
  have hvalued : Cursor.Valued { rest := us ++ [equals, Token.sample .nilWord] } := by
    rw [← hcut]
    intro t ht
    rcases List.mem_append.1 ht with ht | ht
    · exact hts.valued t (List.mem_of_mem_take ht)
    · rw [List.mem_singleton.1 ht]
      exact (Token.standard_sample _).valued
  have hbound : depthFor { rest := us ++ [equals, Token.sample .nilWord] } ≤
      depthFor { rest := ts } := by
    simp only [depthFor, List.length_append, List.length_cons, List.length_nil]
    omega
  have hparse := Program.parse_eq_error_iff.2
    ((outcome_statements hvalued hbound).symm.trans hfails)
  rw [hcut]
  rcases hf with rfl | rfl
  · -- the bound suits the tokens, so it is not reached
    rcases Program.parse_terminates hvalued with ⟨q, hq⟩ | ⟨e, he⟩
    · simp [hparse] at hq
    · simp [hparse] at he
  · exact Program.cause?_of_rejected hparse

end Parser

/-! ### Rejected tokens -/

/-- When a token is rejected, it is the next one, and what has been read up to there can be
completed to a derivable program, unless a list has grown too long or an assignment is misplaced. -/
theorem Program.completion_of_rejected {ts : List Token} {e : ParseError} {c : Cursor}
    (hs : ∀ t ∈ ts, t.Standard) (h : Program.parse { rest := ts } = (.error (.rejected e), c))
    (hlimit : e.cause ∉ Parser.limitCauses)
    (hplaced : ¬ Parser.Misplaced (Parser.statements (Parser.depthFor { rest := ts }))
      { rest := ts }) :
    e.token = c.peek ∧ ∃ us more, ts = us ++ c.rest ∧ (∀ t ∈ more, t.Standard) ∧
      Derives (rule .program) ((us ++ more).map Token.kind) := by
  rw [Program.parse_eq_error_iff] at h
  have hrun := Parser.eq_error_of_outcome h
  rcases Parser.statements_blames _ { rest := ts } hs e c hrun with hcause | hmis | ⟨htoken, hopens⟩
  · exact absurd hcause hlimit
  · exact absurd hmis hplaced
  · obtain ⟨w, ⟨us, hus, rfl⟩, v, hv⟩ := hopens
    refine ⟨htoken, us, v.map Token.sample, hus, fun t ht => ?_, ?_⟩
    · obtain ⟨k, -, rfl⟩ := List.mem_map.1 ht
      exact Token.standard_sample k
    · have hkinds : (v.map Token.sample).map Token.kind = v := by
        simp [Function.comp_def, Token.kind_sample]
      rw [List.map_append, hkinds]
      exact hv

/-- A text is rejected at the token where the parser stops, of the index `p`. All tokens that agree
with those of the text up to this one are rejected there, and for the same cause. Unless a list has
grown too long, or the mark of an assignment was taken after what is no target of one, it is this
token that is reported, and the tokens before it begin some complete tokens that are accepted. -/
theorem rejection_localised {source : List Char} {e : ParseError} {c : Cursor}
    (h : Program.parse { rest := (scan source).tokens } = (.error (.rejected e), c)) :
    ∃ p, p < (scan source).tokens.length ∧ c.rest = (scan source).tokens.drop p ∧
      (∀ ts : List Token, ts.take (p + 1) = (scan source).tokens.take (p + 1) →
        Program.parse { rest := ts } = (.error (.rejected e), ⟨ts.drop p, c.nextId⟩)) ∧
      (e.cause ≠ .tooManyParameters → e.cause ≠ .tooManyArguments →
        (∀ n d target d₁,
          Parser.Reaches (Parser.statements (Parser.depthFor { rest := (scan source).tokens }))
            { rest := (scan source).tokens } (Parser.expression (n + 1)) d →
          Parser.ternary n d = .ok target d₁ → d₁.sees .equal = true →
          Parser.IsTarget target) →
        (scan source).tokens[p]? = some e.token ∧
        ∃ more q c', (∀ t ∈ more, t.Standard) ∧ Complete ((scan source).tokens.take p ++ more) ∧
          Program.parse { rest := (scan source).tokens.take p ++ more } = (.ok q, c')) := by
  have hcomplete := complete_scan source
  have hstandard : ∀ t ∈ (scan source).tokens, t.Standard := fun t => standard_of_mem_scan
  have hstop : Cursor.afterCalls (scan source).tokens 1 = c := congrArg Prod.snd h
  obtain ⟨hsuffix, hended⟩ := hstop ▸ hcomplete.afterCalls 1
  obtain ⟨p, hp, hrest⟩ := Complete.index hsuffix hended
  refine ⟨p, hp, hrest, fun ts => Program.parse_rejected h hrest hp hcomplete.valued, ?_⟩
  intro hparameters harguments htargets
  have hlimit : e.cause ∉ Parser.limitCauses := by
    simp [Parser.limitCauses, hparameters, harguments]
  have hplaced : ¬ Parser.Misplaced
      (Parser.statements (Parser.depthFor { rest := (scan source).tokens }))
      { rest := (scan source).tokens } := by
    rintro ⟨n, d, target, d₁, hreach, hrun, hsees, hno⟩
    exact hno (htargets n d target d₁ hreach hrun hsees)
  obtain ⟨htoken, us, more, hus, hmore, hderives⟩ :=
    Program.completion_of_rejected hstandard h hlimit hplaced
  obtain rfl : us = (scan source).tokens.take p := by
    rw [hrest] at hus
    exact List.append_cancel_right (hus.symm.trans (List.take_append_drop p _).symm)
  have hall : ∀ t ∈ (scan source).tokens.take p ++ more, t.Standard := by
    intro t ht
    rcases List.mem_append.1 ht with ht | ht
    · exact hstandard t (List.mem_of_mem_take ht)
    · exact hmore t ht
  obtain ⟨q, c', hparse⟩ := Program.parse_of_derives hall hderives
  refine ⟨?_, more, q, c', hmore, .of_derives hall hderives, hparse⟩
  rw [htoken, Cursor.peek, hrest, List.headD_eq_head?_getD, List.head?_drop,
    List.getElem?_eq_getElem hp]
  rfl

/-- The mark of assignment follows a property, and so the semicolon is to blame: up to there, the
argument list could have been closed. -/
theorem rejection_localised_in_arguments : ∃ (source : List Char) (e : ParseError) (c : Cursor),
    source = "if (x) \x7b a.b = f(c ? d;".toList ∧
    Program.parse { rest := (scan source).tokens } = (.error (.rejected e), c) ∧
    e.cause = .endOfArguments ∧ (scan source).tokens[14]? = some e.token ∧
    ∃ more q c', (∀ t ∈ more, t.Standard) ∧ Complete ((scan source).tokens.take 14 ++ more) ∧
      Program.parse { rest := (scan source).tokens.take 14 ++ more } = (.ok q, c') := by
  obtain ⟨source, hsource⟩ : ∃ source, source = "if (x) \x7b a.b = f(c ? d;".toList := ⟨_, rfl⟩
  have hlength : (scan source).tokens.length = 16 := by rw [hsource]; decide +kernel
  have hcause : Program.cause? { rest := (scan source).tokens } = some .endOfArguments := by
    rw [hsource]; decide +kernel
  have hleft : (Program.parse { rest := (scan source).tokens }).2.rest.length = 2 := by
    rw [hsource]; decide +kernel
  -- wherever the tokens are cut short, no target of an assignment is to blame
  have hcuts : ∀ i < 16, Program.cause?
      { rest := (scan source).tokens.take (i + 1) ++ [Token.sample .nilWord] } ≠
        some .invalidTarget := by
    rw [hsource]; decide +kernel
  obtain ⟨e, c, hparse, he⟩ := Program.rejected_of_cause? hcause
  obtain ⟨p, hp, hrest, -, hblame⟩ := rejection_localised hparse
  obtain rfl : p = 14 := by
    rw [hparse] at hleft
    simp only [hrest, List.length_drop] at hleft
    omega
  obtain ⟨htoken, haccepted⟩ := hblame (by simp [he]) (by simp [he])
    fun n d target d₁ hreach hrun hsees => by
      by_contra hno
      obtain ⟨i, hi, hreported⟩ := Parser.Misplaced.reported (complete_scan source)
        ⟨n, d, target, d₁, hreach, hrun, hsees, hno⟩
      exact hcuts i (hlength ▸ hi) hreported
  exact ⟨source, e, c, hsource, hparse, he, htoken, haccepted⟩

end Wandika
