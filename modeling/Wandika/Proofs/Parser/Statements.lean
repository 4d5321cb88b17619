import Wandika.Proofs.Parser.Expressions

/-!
# What the rules for statements read

As for expressions, every rule reads the signs of the tree it gives, and a bound that is large
enough is never reached.

* `ReadsStmt`, `ReadsBlock`, `ReadsFunction`, `ReadsMethods`, `ReadsParams`: what a rule has read;
* `StmtRules`, `stmtRules`: what the rules for statements ensure, at one bound and at every bound;
* `program_ensures`: what parsing a whole program ensures.
-/

namespace Wandika

namespace Parser

/-- From the first cursor to the second a statement is read. If it dangles, no `else` follows
it. -/
structure ReadsStmt (c : Cursor) (s : Stmt) (c' : Cursor) : Prop where
  reads : c.Reads s.yield s.ids c'
  shaped : s.Shaped
  closed : s.dangles = true → c'.sees .elseWord = false

/-- A statement that ends in a mark of its own may be followed by anything. -/
theorem ReadsStmt.complete {c c' : Cursor} {s : Stmt} (hd : s.dangles = false)
    (hr : c.Reads s.yield s.ids c') (hs : s.Shaped) : ReadsStmt c s c' where
  reads := hr
  shaped := hs
  closed h := by simp [hd] at h

theorem ReadsStmt.shorter {c c' : Cursor} {s : Stmt} (h : ReadsStmt c s c') :
    c'.rest.length < c.rest.length := by
  refine h.reads.shorter ?_
  cases s with
  | branch _ _ no => cases no <;> simp [Stmt.yield]
  | ret _ value => cases value <;> simp [Stmt.yield]
  | varDecl _ init => cases init <;> simp [Stmt.yield]
  | _ => simp [Stmt.yield]

/-- From the first cursor to the second the statements of a block and its closing brace are
read. -/
structure ReadsBlock (c : Cursor) (body : List Stmt) (c' : Cursor) : Prop where
  reads : c.Reads (Stmt.yieldAll body ++ [.mark .rightBrace]) (Stmt.idsAll body) c'
  shaped : Stmt.ShapedAll body

/-- From the first cursor to the second a function is read, from its name on. -/
structure ReadsFunction (c : Cursor) (f : FunDecl) (c' : Cursor) : Prop where
  reads : c.Reads f.yield f.ids c'
  shaped : f.Shaped

theorem ReadsFunction.shorter {c c' : Cursor} {f : FunDecl} (h : ReadsFunction c f c') :
    c'.rest.length < c.rest.length := by
  obtain ⟨name, params, body⟩ := f
  exact h.reads.shorter (by simp [FunDecl.yield])

/-- From the first cursor to the second the methods of a class and its closing brace are read. -/
structure ReadsMethods (c : Cursor) (methods : List FunDecl) (c' : Cursor) : Prop where
  reads : c.Reads (FunDecl.yieldAll methods ++ [.mark .rightBrace]) (FunDecl.idsAll methods) c'
  shaped : FunDecl.ShapedAll methods

/-- From the first cursor to the second parameters are read, after `count` earlier ones. -/
structure ReadsParams (c : Cursor) (count : Nat) (params : List Token) (c' : Cursor) : Prop where
  reads : c.Reads (Token.yieldAll params) [] c'
  kind : ∀ p ∈ params, p.kind = .identifier
  ne_nil : params ≠ []
  length_le : count + params.length ≤ maxArguments

theorem parameters_ensures (n count : Nat) (c : Cursor) (hc : c.Standard) :
    Ensures (parameters n count) c (ReadsParams c count)
      (Failure.Within (24 * c.rest.length + 1 ≤ n)) := by
  induction n generalizing count c with
  | zero => exact Ensures.exhausted (by simp [Failure.Within])
  | succ n ih =>
    rw [parameters]
    split_ifs with hcount
    · exact Ensures.reject trivial
    refine Ensures.expect (fun param c₁ hp hkp => ?_) fun _ => trivial
    have hp := hp.reads
    have hc₁ := hp.standard hc
    have hlt₁ := hp.shorter (by simp)
    refine Ensures.accept (fun t c₂ hm hk => ?_) fun _ => ?_
    · have hm := hm.reads_mark hc₁ hk rfl
      have hlt₂ := hm.shorter (by simp)
      refine (ih (count + 1) c₂ (hm.standard hc₁)).bind (fun _ => Failure.Within.mono (by omega))
        fun rest c₃ hr => ?_
      refine Ensures.pure ⟨?_, ?_, by simp, ?_⟩
      · rw [Token.yieldAll_cons _ hr.ne_nil]
        exact hp.trans (hm.trans hr.reads)
      · simpa [hkp] using hr.kind
      · have := hr.length_le
        simp only [List.length_cons]
        omega
    · exact Ensures.pure ⟨hp, by simpa using hkp, by simp, by simp; omega⟩

section Simple

variable {n : Nat} {c₀ c : Cursor}

theorem varDecl_ensures (hc : c.Standard) (hw : c₀.Reads [.mark .varWord] [] c) :
    Ensures (varDecl n) c (ReadsStmt c₀) (Failure.Within (24 * c.rest.length + 16 ≤ n)) := by
  unfold varDecl
  refine Ensures.expect (fun name c₁ hn hk => ?_) fun _ => trivial
  have hn := hn.reads
  have hc₁ := hn.standard hc
  have hlt₁ := hn.shorter (by simp)
  refine Ensures.accept (fun t c₂ hm hkm => ?_) fun _ => ?_
  · have hm := hm.reads_mark hc₁ hkm rfl
    have hc₂ := hm.standard hc₁
    have hlt₂ := hm.shorter (by simp)
    refine ((exprRules n).expression c₂ hc₂).bind (fun _ => Failure.Within.mono (by omega))
      fun init c₃ hi => ?_
    refine Ensures.expect (fun t c₄ hs hks => ?_) fun _ => trivial
    have hs := hs.reads_mark (hi.standard hc₂) hks rfl
    refine Ensures.pure (.complete rfl ?_ ⟨hk, hi.shaped⟩)
    simpa [Stmt.yield, Stmt.ids] using hw.trans (hn.trans (hm.trans (hi.reads.trans hs)))
  · refine Ensures.expect (fun t c₂ hs hks => ?_) fun _ => trivial
    refine Ensures.pure (.complete rfl ?_ hk)
    simpa [Stmt.yield, Stmt.ids] using hw.trans (hn.trans (hs.reads_mark hc₁ hks rfl))

theorem printStmt_ensures (hc : c.Standard) (hw : c₀.Reads [.mark .printWord] [] c) :
    Ensures (printStmt n) c (fun s c' => ReadsStmt c₀ s c' ∧ s.isVarDecl = false)
      (Failure.Within (24 * c.rest.length + 16 ≤ n)) := by
  unfold printStmt
  refine ((exprRules n).expression c hc).bind (fun _ h => h) fun value c₁ hv => ?_
  refine Ensures.expect (fun t c₂ hs hk => ?_) fun _ => trivial
  have hs := hs.reads_mark (hv.standard hc) hk rfl
  refine Ensures.pure ⟨.complete rfl ?_ hv.shaped, rfl⟩
  simpa [Stmt.yield, Stmt.ids] using hw.trans (hv.reads.trans hs)

theorem returnStmt_ensures (keyword : Token) (hc : c.Standard)
    (hw : c₀.Reads [.mark .returnWord] [] c) :
    Ensures (returnStmt n keyword) c (fun s c' => ReadsStmt c₀ s c' ∧ s.isVarDecl = false)
      (Failure.Within (24 * c.rest.length + 16 ≤ n)) := by
  unfold returnStmt
  refine Ensures.sees ?_
  split
  · refine Ensures.expect (fun t c₁ hs hk => ?_) fun _ => trivial
    refine Ensures.pure ⟨.complete rfl ?_ trivial, rfl⟩
    simpa [Stmt.yield, Stmt.ids] using hw.trans (hs.reads_mark hc hk rfl)
  · refine ((exprRules n).expression c hc).bind (fun _ h => h) fun value c₁ hv => ?_
    refine Ensures.expect (fun t c₂ hs hk => ?_) fun _ => trivial
    have hs := hs.reads_mark (hv.standard hc) hk rfl
    refine Ensures.pure ⟨.complete rfl ?_ hv.shaped, rfl⟩
    simpa [Stmt.yield, Stmt.ids] using hw.trans (hv.reads.trans hs)

theorem exprStmt_ensures (hc : c.Standard) :
    Ensures (exprStmt n) c (fun s c' => ReadsStmt c s c' ∧ s.isVarDecl = false)
      (Failure.Within (24 * c.rest.length + 16 ≤ n)) := by
  unfold exprStmt
  refine ((exprRules n).expression c hc).bind (fun _ h => h) fun value c₁ hv => ?_
  refine Ensures.expect (fun t c₂ hs hk => ?_) fun _ => trivial
  have hs := hs.reads_mark (hv.standard hc) hk rfl
  refine Ensures.pure ⟨.complete rfl ?_ hv.shaped, rfl⟩
  simpa [Stmt.yield, Stmt.ids] using hv.reads.trans hs

end Simple

/-- What the rules for statements ensure at the bound `n`. -/
structure StmtRules (n : Nat) : Prop where
  declaration : ∀ c : Cursor, c.Standard →
    Ensures (declaration n) c (ReadsStmt c) (Failure.Within (24 * c.rest.length + 18 ≤ n))
  statement : ∀ c : Cursor, c.Standard →
    Ensures (statement n) c (fun s c' => ReadsStmt c s c' ∧ s.isVarDecl = false)
      (Failure.Within (24 * c.rest.length + 17 ≤ n))
  block : ∀ c : Cursor, c.Standard →
    Ensures (block n) c (ReadsBlock c) (Failure.Within (24 * c.rest.length + 19 ≤ n))
  ifStmt : ∀ c₀ c : Cursor, c.Standard → c₀.Reads [.mark .ifWord] [] c →
    Ensures (ifStmt n) c (fun s c' => ReadsStmt c₀ s c' ∧ s.isVarDecl = false)
      (Failure.Within (24 * c.rest.length + 1 ≤ n))
  whileStmt : ∀ (keyword : Token) (c₀ c : Cursor), c.Standard →
    c₀.Reads [.mark .whileWord] [] c →
    Ensures (whileStmt n keyword) c (fun s c' => ReadsStmt c₀ s c' ∧ s.isVarDecl = false)
      (Failure.Within (24 * c.rest.length + 1 ≤ n))
  function : ∀ (kind : FunKind) (c : Cursor), c.Standard →
    Ensures (function n kind) c (ReadsFunction c) (Failure.Within (24 * c.rest.length + 1 ≤ n))
  classDecl : ∀ c₀ c : Cursor, c.Standard → c₀.Reads [.mark .classWord] [] c →
    Ensures (classDecl n) c (fun s c' => ReadsStmt c₀ s c' ∧ s.isVarDecl = false)
      (Failure.Within (24 * c.rest.length + 1 ≤ n))
  methods : ∀ c : Cursor, c.Standard →
    Ensures (methods n) c (ReadsMethods c) (Failure.Within (24 * c.rest.length + 2 ≤ n))

namespace StmtRules

variable {n : Nat} {c : Cursor}

theorem declaration_succ (ih : StmtRules n) (hc : c.Standard) :
    Ensures (Parser.declaration (n + 1)) c (ReadsStmt c)
      (Failure.Within (24 * c.rest.length + 18 ≤ n + 1)) := by
  rw [Parser.declaration]
  refine Ensures.accept (fun t c₁ hw hk => ?_) fun _ => ?_
  · have hw := hw.reads_mark hc hk rfl
    have hlt₁ := hw.shorter (by simp)
    exact (varDecl_ensures (hw.standard hc) hw).mono (fun _ _ h => h)
      fun _ => Failure.Within.mono (by omega)
  · exact (ih.statement c hc).mono (fun _ _ h => h.1) fun _ => Failure.Within.mono (by omega)

theorem statement_succ (ih : StmtRules n) (hc : c.Standard) :
    Ensures (Parser.statement (n + 1)) c (fun s c' => ReadsStmt c s c' ∧ s.isVarDecl = false)
      (Failure.Within (24 * c.rest.length + 17 ≤ n + 1)) := by
  rw [Parser.statement]
  refine Ensures.acceptAny (fun t c₁ ht hk => ?_) fun _ => ?_
  · have mark : ∀ {k}, t.kind = k → k.varies = false → c.Reads [.mark k] [] c₁ :=
      fun hk hv => ht.reads_mark hc hk hv
    have hc₁ := ht.reads.standard hc
    have hlt₁ := ht.reads.shorter (by simp)
    simp only [List.mem_cons, List.not_mem_nil, or_false] at hk
    rcases hk with hk | hk | hk | hk | hk | hk | hk
    all_goals simp only [hk]
    · exact (printStmt_ensures hc₁ (mark hk rfl)).mono (fun _ _ h => h)
        fun _ => Failure.Within.mono (by omega)
    · exact (ih.ifStmt c c₁ hc₁ (mark hk rfl)).mono (fun _ _ h => h)
        fun _ => Failure.Within.mono (by omega)
    · exact (ih.whileStmt t c c₁ hc₁ (mark hk rfl)).mono (fun _ _ h => h)
        fun _ => Failure.Within.mono (by omega)
    · refine (ih.function .function c₁ hc₁).bind (fun _ => Failure.Within.mono (by omega))
        fun decl c₂ hd => ?_
      exact Ensures.pure ⟨.complete rfl ((mark hk rfl).trans hd.reads) hd.shaped, rfl⟩
    · exact (ih.classDecl c c₁ hc₁ (mark hk rfl)).mono (fun _ _ h => h)
        fun _ => Failure.Within.mono (by omega)
    · exact (returnStmt_ensures t hc₁ (mark hk rfl)).mono (fun _ _ h => h)
        fun _ => Failure.Within.mono (by omega)
    · refine (ih.block c₁ hc₁).bind (fun _ => Failure.Within.mono (by omega))
        fun body c₂ hb => ?_
      exact Ensures.pure ⟨.complete rfl ((mark hk rfl).trans hb.reads) hb.shaped, rfl⟩
  · exact (exprStmt_ensures hc).mono (fun _ _ h => h) fun _ => Failure.Within.mono (by omega)

theorem block_succ (ih : StmtRules n) (hc : c.Standard) :
    Ensures (Parser.block (n + 1)) c (ReadsBlock c)
      (Failure.Within (24 * c.rest.length + 19 ≤ n + 1)) := by
  rw [Parser.block]
  refine Ensures.sees (Ensures.atEnd ?_)
  split
  · refine Ensures.expect (fun t c₁ hr hk => ?_) fun _ => trivial
    exact Ensures.pure ⟨hr.reads_mark hc hk rfl, trivial⟩
  · refine (ih.declaration c hc).bind (fun _ => Failure.Within.mono (by omega))
      fun first c₁ hf => ?_
    have hlt₁ := hf.shorter
    refine (ih.block c₁ (hf.reads.standard hc)).bind (fun _ => Failure.Within.mono (by omega))
      fun rest c₂ hr => ?_
    refine Ensures.pure ⟨?_, hf.shaped, hr.shaped⟩
    simpa [Stmt.yieldAll, Stmt.idsAll] using hf.reads.trans hr.reads

theorem ifStmt_succ (ih : StmtRules n) (c₀ : Cursor) (hc : c.Standard)
    (hw : c₀.Reads [.mark .ifWord] [] c) :
    Ensures (Parser.ifStmt (n + 1)) c (fun s c' => ReadsStmt c₀ s c' ∧ s.isVarDecl = false)
      (Failure.Within (24 * c.rest.length + 1 ≤ n + 1)) := by
  rw [Parser.ifStmt]
  refine Ensures.expect (fun t c₁ hp hk => ?_) fun _ => trivial
  have hp := hp.reads_mark hc hk rfl
  have hc₁ := hp.standard hc
  have hlt₁ := hp.shorter (by simp)
  refine ((exprRules n).expression c₁ hc₁).bind (fun _ => Failure.Within.mono (by omega))
    fun cond c₂ hcond => ?_
  have hc₂ := hcond.standard hc₁
  have hlt₂ := hcond.shorter
  refine Ensures.expect (fun t c₃ hr hk => ?_) fun _ => trivial
  have hr := hr.reads_mark hc₂ hk rfl
  have hc₃ := hr.standard hc₂
  have hlt₃ := hr.shorter (by simp)
  refine (ih.statement c₃ hc₃).bind (fun _ => Failure.Within.mono (by omega)) ?_
  rintro yes c₄ ⟨hy, hyv⟩
  have hc₄ := hy.reads.standard hc₃
  have hlt₄ := hy.shorter
  have hread := hw.trans (hp.trans (hcond.reads.trans (hr.trans hy.reads)))
  refine Ensures.accept (fun t c₅ he hk => ?_) fun hno => ?_
  · have hyd : yes.dangles = false := by
      -- an `else` follows, so the first branch cannot lack one
      by_contra h
      have := hy.closed (by simpa using h)
      simp [he.sees, hk] at this
    have he := he.reads_mark hc₄ hk rfl
    have hlt₅ := he.shorter (by simp)
    refine (ih.statement c₅ (he.standard hc₄)).bind (fun _ => Failure.Within.mono (by omega)) ?_
    rintro no c₆ ⟨hn, hnv⟩
    refine Ensures.pure ⟨⟨?_, ⟨hcond.shaped, hy.shaped, hyv, hyd, hn.shaped, hnv⟩, hn.closed⟩, rfl⟩
    simpa [Stmt.yield, Stmt.ids] using hread.trans (he.trans hn.reads)
  · refine Ensures.pure ⟨⟨?_, ⟨hcond.shaped, hy.shaped, hyv⟩, fun _ => hno⟩, rfl⟩
    simpa [Stmt.yield, Stmt.ids] using hread

theorem whileStmt_succ (ih : StmtRules n) (keyword : Token) (c₀ : Cursor) (hc : c.Standard)
    (hw : c₀.Reads [.mark .whileWord] [] c) :
    Ensures (Parser.whileStmt (n + 1) keyword) c
      (fun s c' => ReadsStmt c₀ s c' ∧ s.isVarDecl = false)
      (Failure.Within (24 * c.rest.length + 1 ≤ n + 1)) := by
  rw [Parser.whileStmt]
  refine Ensures.expect (fun t c₁ hp hk => ?_) fun _ => trivial
  have hp := hp.reads_mark hc hk rfl
  have hc₁ := hp.standard hc
  have hlt₁ := hp.shorter (by simp)
  refine ((exprRules n).expression c₁ hc₁).bind (fun _ => Failure.Within.mono (by omega))
    fun cond c₂ hcond => ?_
  have hc₂ := hcond.standard hc₁
  have hlt₂ := hcond.shorter
  refine Ensures.expect (fun t c₃ hr hk => ?_) fun _ => trivial
  have hr := hr.reads_mark hc₂ hk rfl
  have hlt₃ := hr.shorter (by simp)
  refine (ih.statement c₃ (hr.standard hc₂)).bind (fun _ => Failure.Within.mono (by omega)) ?_
  rintro body c₄ ⟨hb, hbv⟩
  refine Ensures.pure ⟨⟨?_, ⟨hcond.shaped, hb.shaped, hbv⟩, hb.closed⟩, rfl⟩
  simpa [Stmt.yield, Stmt.ids] using
    hw.trans (hp.trans (hcond.reads.trans (hr.trans hb.reads)))

/-- The rest of a function after its parameters. -/
theorem function_body (ih : StmtRules n) {name : Token} {params : List Token} {c₀ : Cursor}
    (hc : c.Standard) (hlt : c.rest.length < c₀.rest.length)
    (hread : c₀.Reads (name.sign :: .mark .leftParen :: Token.yieldAll params) [] c)
    (hn : name.kind = .identifier) (hp : ∀ p ∈ params, p.kind = .identifier)
    (hl : params.length ≤ maxArguments) {kind : FunKind} :
    Ensures (do
      let _ ← expect .rightParen .endOfParameters
      let _ ← expect .leftBrace (.startOfBody kind)
      let body ← Parser.block n
      return .mk name params body) c (ReadsFunction c₀)
      (Failure.Within (24 * c₀.rest.length + 1 ≤ n + 1)) := by
  refine Ensures.expect (fun t c₁ hr hk => ?_) fun _ => trivial
  have hr := hr.reads_mark hc hk rfl
  have hc₁ := hr.standard hc
  have hlt₁ := hr.shorter (by simp)
  refine Ensures.expect (fun t c₂ hb hk => ?_) fun _ => trivial
  have hb := hb.reads_mark hc₁ hk rfl
  have hlt₂ := hb.shorter (by simp)
  refine (ih.block c₂ (hb.standard hc₁)).bind (fun _ => Failure.Within.mono (by omega))
    fun body c₃ hbody => ?_
  refine Ensures.pure ⟨?_, hn, hp, hl, hbody.shaped⟩
  simpa [FunDecl.yield, FunDecl.ids] using hread.trans (hr.trans (hb.trans hbody.reads))

theorem function_succ (ih : StmtRules n) (kind : FunKind) (hc : c.Standard) :
    Ensures (Parser.function (n + 1) kind) c (ReadsFunction c)
      (Failure.Within (24 * c.rest.length + 1 ≤ n + 1)) := by
  rw [Parser.function]
  refine Ensures.expect (fun name c₁ hn hkn => ?_) fun _ => trivial
  have hn := hn.reads
  have hc₁ := hn.standard hc
  have hlt₁ := hn.shorter (by simp)
  refine Ensures.expect (fun t c₂ hp hk => ?_) fun _ => trivial
  have hp := hp.reads_mark hc₁ hk rfl
  have hc₂ := hp.standard hc₁
  have hlt₂ := hp.shorter (by simp)
  refine Ensures.sees ?_
  split
  · have hread : c.Reads (name.sign :: .mark .leftParen :: Token.yieldAll []) [] c₂ := hn.trans hp
    exact Ensures.pure_bind (function_body ih hc₂ (by omega) hread hkn (by simp) (Nat.zero_le _))
  · refine (parameters_ensures n 0 c₂ hc₂).bind (fun _ => Failure.Within.mono (by omega))
      fun params c₃ hps => ?_
    have hlt₃ := hps.reads.length
    have hlen := hps.length_le
    exact function_body ih (hps.reads.standard hc₂) (by omega)
      (hn.trans (hp.trans hps.reads)) hkn hps.kind (by omega)

theorem classDecl_succ (ih : StmtRules n) (c₀ : Cursor) (hc : c.Standard)
    (hw : c₀.Reads [.mark .classWord] [] c) :
    Ensures (Parser.classDecl (n + 1)) c (fun s c' => ReadsStmt c₀ s c' ∧ s.isVarDecl = false)
      (Failure.Within (24 * c.rest.length + 1 ≤ n + 1)) := by
  rw [Parser.classDecl]
  refine Ensures.expect (fun name c₁ hn hkn => ?_) fun _ => trivial
  have hn := hn.reads
  have hc₁ := hn.standard hc
  have hlt₁ := hn.shorter (by simp)
  refine Ensures.expect (fun t c₂ hb hk => ?_) fun _ => trivial
  have hb := hb.reads_mark hc₁ hk rfl
  have hlt₂ := hb.shorter (by simp)
  refine (ih.methods c₂ (hb.standard hc₁)).bind (fun _ => Failure.Within.mono (by omega))
    fun methods c₃ hm => ?_
  refine Ensures.pure ⟨.complete rfl ?_ ⟨hkn, hm.shaped⟩, rfl⟩
  simpa [Stmt.yield, Stmt.ids] using hw.trans (hn.trans (hb.trans hm.reads))

theorem methods_succ (ih : StmtRules n) (hc : c.Standard) :
    Ensures (Parser.methods (n + 1)) c (ReadsMethods c)
      (Failure.Within (24 * c.rest.length + 2 ≤ n + 1)) := by
  rw [Parser.methods]
  refine Ensures.sees (Ensures.atEnd ?_)
  split
  · refine Ensures.expect (fun t c₁ hr hk => ?_) fun _ => trivial
    exact Ensures.pure ⟨hr.reads_mark hc hk rfl, trivial⟩
  · refine (ih.function .method c hc).bind (fun _ => Failure.Within.mono (by omega))
      fun first c₁ hf => ?_
    have hlt₁ := hf.shorter
    refine (ih.methods c₁ (hf.reads.standard hc)).bind (fun _ => Failure.Within.mono (by omega))
      fun rest c₂ hr => ?_
    refine Ensures.pure ⟨?_, hf.shaped, hr.shaped⟩
    simpa [FunDecl.yieldAll, FunDecl.idsAll] using hf.reads.trans hr.reads

end StmtRules

/-- The rules for statements at every bound. -/
theorem stmtRules (n : Nat) : StmtRules n := by
  induction n with
  | zero =>
    constructor
    all_goals intros
    all_goals exact Ensures.exhausted (by simp [Failure.Within])
  | succ n ih =>
    exact {
      declaration := fun c hc => ih.declaration_succ hc
      statement := fun c hc => ih.statement_succ hc
      block := fun c hc => ih.block_succ hc
      ifStmt := fun c₀ c hc hw => ih.ifStmt_succ c₀ hc hw
      whileStmt := fun keyword c₀ c hc hw => ih.whileStmt_succ keyword c₀ hc hw
      function := fun kind c hc => ih.function_succ kind hc
      classDecl := fun c₀ c hc hw => ih.classDecl_succ c₀ hc hw
      methods := fun c hc => ih.methods_succ hc }

/-! ### Programs -/

theorem statements_ensures (n : Nat) (c : Cursor) (hc : c.Standard) :
    Ensures (statements n) c
      (fun ss c' => c.Reads (Stmt.yieldAll ss) (Stmt.idsAll ss) c' ∧ Stmt.ShapedAll ss ∧
        c'.atEnd = true)
      (Failure.Within (24 * c.rest.length + 19 ≤ n)) := by
  induction n generalizing c with
  | zero => exact Ensures.exhausted (by simp [Failure.Within])
  | succ n ih =>
    rw [statements]
    refine Ensures.atEnd ?_
    split
    · exact Ensures.pure ⟨.refl c, trivial, ‹_›⟩
    · refine ((stmtRules n).declaration c hc).bind (fun _ => Failure.Within.mono (by omega))
        fun first c₁ hf => ?_
      have hlt₁ := hf.shorter
      refine (ih c₁ (hf.reads.standard hc)).bind (fun _ => Failure.Within.mono (by omega)) ?_
      rintro rest c₂ ⟨hr, hs, he⟩
      exact Ensures.pure ⟨hf.reads.trans hr, ⟨hf.shaped, hs⟩, he⟩

/-- A whole program: the signs up to the end mark are those of its tree, its variable nodes are
numbered in order, and it is rejected only for a token. -/
theorem program_ensures (c : Cursor) (hc : c.Standard) :
    Ensures program c
      (fun p c' => c.Reads p.yield (Stmt.idsAll p.stmts) c' ∧ Stmt.ShapedAll p.stmts ∧
        c'.atEnd = true ∧ p.nodes = c'.nextId)
      (Failure.Within True) := by
  unfold program
  refine Ensures.get_bind ?_
  refine (statements_ensures _ c hc).bind (fun _ => Failure.Within.mono fun _ => ?_) ?_
  · simp only [depthFor]
    omega
  · rintro ss c' ⟨hr, hs, he⟩
    exact Ensures.get_bind (Ensures.pure ⟨hr, hs, he, rfl⟩)

end Parser

end Wandika
