import Wandika.Proofs.Parser.Outcome

/-!
# What the rules for expressions read

Every rule that succeeds has read exactly the signs of the tree it gives, has numbered its variable
nodes in order, and gives a tree that has a shape. It fails only by rejecting a token, provided
that its bound on the depth of rules was large enough for the tokens that were left.

* `ReadsExpr`, `ReadsArgs`: what a rule has read;
* `ExprRules`: what all rules ensure at one bound, proved rule by rule from the bound below;
* `exprRules`: what they ensure at every bound.
-/

namespace Wandika

theorem Expr.yield_ne_nil {e : Expr} (h : e.Shaped) : e.yield ≠ [] := by
  cases e with
  | literal d =>
    cases d with
    | bool b => cases b <;> simp [Expr.yield, Datum.yield]
    | nil | number | text => simp [Expr.yield, Datum.yield]
    | absent | cls | object => cases h
  | ternary _ _ _ no => cases no <;> simp [Expr.yield]
  | _ => simp [Expr.yield]

namespace Parser

/-- From the first cursor to the second an expression of at least the rank is read. If it dangles,
no `:` follows it. -/
structure ReadsExpr (c : Cursor) (rank : Nat) (e : Expr) (c' : Cursor) : Prop where
  reads : c.Reads e.yield e.ids c'
  shaped : e.Shaped
  rank_le : rank ≤ e.rank
  closed : e.dangles = true → c'.sees .colon = false

namespace ReadsExpr

variable {c c' : Cursor} {m : Nat} {e : Expr}

/-- Expressions of a rank do not dangle. -/
theorem of_rank_pos (hr : c.Reads e.yield e.ids c') (hs : e.Shaped) (hm : m ≤ e.rank)
    (hpos : 0 < m) : ReadsExpr c m e c' where
  reads := hr
  shaped := hs
  rank_le := hm
  closed h := by
    rw [Expr.dangles_of_rank_pos hs (by omega)] at h
    cases h

theorem weaken {k : Nat} (h : ReadsExpr c m e c') (hk : k ≤ m) : ReadsExpr c k e c' :=
  { h with rank_le := hk.trans h.rank_le }

theorem shorter (h : ReadsExpr c m e c') : c'.rest.length < c.rest.length :=
  h.reads.shorter (Expr.yield_ne_nil h.shaped)

theorem standard (h : ReadsExpr c m e c') (hc : c.Standard) : c'.Standard :=
  h.reads.standard hc

/-- A chain with one more operator and operand. -/
theorem node {l : Level} {op : Token} {lhs rhs : Expr} {c₁ c₂ : Cursor}
    (hl : ReadsExpr c l.rank lhs c₁) (ho : c₁.Reads [op.sign] [] c₂) (hk : op.kind ∈ l.operators)
    (hr : ReadsExpr c₂ (l.rank + 1) rhs c') : ReadsExpr c l.rank (l.node op lhs rhs) c' := by
  have hj : l.Joins op lhs rhs := ⟨hk, hl.rank_le, hr.rank_le⟩
  have hread : c.Reads (l.node op lhs rhs).yield (l.node op lhs rhs).ids c' := by
    cases l <;> simpa [Level.node, Expr.yield, Expr.ids] using hl.reads.trans (ho.trans hr.reads)
  exact .of_rank_pos hread (hj.shaped_node hl.shaped hr.shaped) hj.rank_node.ge l.rank_pos

/-- A call with its argument list between parentheses. -/
theorem call {args : List Expr} {paren : Token} {c₁ c₂ c₃ : Cursor}
    (he : ReadsExpr c callRank e c₁) (hp : c₁.Reads [.mark .leftParen] [] c₂)
    (ha : c₂.Reads (Expr.yieldAll args) (Expr.idsAll args) c₃) (hs : Expr.ShapedAll args)
    (hn : args.length ≤ maxArguments) (hr : c₃.Reads [.mark .rightParen] [] c') :
    ReadsExpr c callRank (.call e paren args) c' := by
  have hread : c.Reads (Expr.call e paren args).yield (Expr.call e paren args).ids c' := by
    simpa [Expr.yield, Expr.ids] using he.reads.trans (hp.trans (ha.trans hr))
  exact .of_rank_pos hread ⟨Expr.rank_eq_callRank he.rank_le, he.shaped, hs, hn⟩ le_rfl (by decide)

/-- A property of what has been read. -/
theorem get {name : Token} {c₁ c₂ : Cursor} (he : ReadsExpr c callRank e c₁)
    (hd : c₁.Reads [.mark .dot] [] c₂) (hn : c₂.Reads [name.sign] [] c')
    (hk : name.kind = .identifier) : ReadsExpr c callRank (.get e name) c' := by
  have hread : c.Reads (Expr.get e name).yield (Expr.get e name).ids c' := by
    simpa [Expr.yield, Expr.ids] using he.reads.trans (hd.trans hn)
  exact .of_rank_pos hread ⟨Expr.rank_eq_callRank he.rank_le, he.shaped, hk⟩ le_rfl (by decide)

end ReadsExpr

/-- From the first cursor to the second arguments are read, after `count` earlier ones. -/
structure ReadsArgs (c : Cursor) (count : Nat) (args : List Expr) (c' : Cursor) : Prop where
  reads : c.Reads (Expr.yieldAll args) (Expr.idsAll args) c'
  shaped : Expr.ShapedAll args
  ne_nil : args ≠ []
  length_le : count + args.length ≤ maxArguments

/-- What the rules for expressions ensure at the bound `n`. Every rule that calls another hands on a
bound that is smaller by one, and 24 such calls are enough for each token. -/
structure ExprRules (n : Nat) : Prop where
  expression : ∀ c : Cursor, c.Standard →
    Ensures (expression n) c (ReadsExpr c 0) (Failure.Within (24 * c.rest.length + 16 ≤ n))
  ternary : ∀ c : Cursor, c.Standard →
    Ensures (ternary n) c (ReadsExpr c 0) (Failure.Within (24 * c.rest.length + 15 ≤ n))
  level : ∀ (l : Level) (c : Cursor), c.Standard → Ensures (level n l) c (ReadsExpr c l.rank)
    (Failure.Within (24 * c.rest.length + 2 * (7 - l.rank) + 2 ≤ n))
  operand : ∀ (l : Level) (c : Cursor), c.Standard →
    Ensures (operand n l) c (ReadsExpr c (l.rank + 1))
      (Failure.Within (24 * c.rest.length + 2 * (7 - l.rank) + 1 ≤ n))
  chain : ∀ (l : Level) (lhs : Expr) (c₀ c : Cursor), c.Standard → ReadsExpr c₀ l.rank lhs c →
    Ensures (chain n l lhs) c (ReadsExpr c₀ l.rank)
      (Failure.Within (24 * c.rest.length + 1 ≤ n))
  unary : ∀ c : Cursor, c.Standard → Ensures (unary n) c (ReadsExpr c unaryRank)
    (Failure.Within (24 * c.rest.length + 2 ≤ n))
  suffixes : ∀ (e : Expr) (c₀ c : Cursor), c.Standard → ReadsExpr c₀ callRank e c →
    Ensures (suffixes n e) c (ReadsExpr c₀ callRank)
      (Failure.Within (24 * c.rest.length + 1 ≤ n))
  arguments : ∀ (count : Nat) (c : Cursor), c.Standard →
    Ensures (arguments n count) c (ReadsArgs c count)
      (Failure.Within (24 * c.rest.length + 17 ≤ n))
  primary : ∀ c : Cursor, c.Standard → Ensures (primary n) c (ReadsExpr c callRank)
    (Failure.Within (24 * c.rest.length + 1 ≤ n))

namespace ExprRules

variable {n : Nat} {c : Cursor}

/-- An assignment is read as its target, the mark and its value. -/
theorem assignment?_eq_some {target value e : Expr} (h : assignment? target value = some e)
    (ht : target.Shaped) (hv : value.Shaped) :
    e.yield = target.yield ++ .mark .equal :: value.yield ∧ e.ids = target.ids ++ value.ids ∧
      e.Shaped ∧ e.dangles = value.dangles := by
  unfold assignment? at h
  split at h
  · cases h
    exact ⟨rfl, rfl, ⟨ht, hv⟩, rfl⟩
  · cases h
    obtain ⟨hr, ho, hn⟩ := ht
    exact ⟨by simp [Expr.yield], rfl, ⟨hr, ho, hn, hv⟩, rfl⟩
  · cases h

theorem expression_succ (ih : ExprRules n) (hc : c.Standard) :
    Ensures (Parser.expression (n + 1)) c (ReadsExpr c 0)
      (Failure.Within (24 * c.rest.length + 16 ≤ n + 1)) := by
  rw [Parser.expression]
  refine (ih.ternary c hc).bind (fun _ => Failure.Within.mono (by omega)) fun target c₁ ht => ?_
  have hc₁ := ht.standard hc
  have hlt₁ := ht.shorter
  refine Ensures.accept (fun t c₂ hm hk => ?_) fun _ => Ensures.pure ht
  have hm := hm.reads_mark hc₁ hk rfl
  have hlt₂ := hm.shorter (by simp)
  refine (ih.expression c₂ (hm.standard hc₁)).bind (fun _ => Failure.Within.mono (by omega))
    fun value c₃ hv => ?_
  cases ha : assignment? target value with
  | none => exact Ensures.throw trivial
  | some e =>
    obtain ⟨hy, hi, hs, hd⟩ := assignment?_eq_some ha ht.shaped hv.shaped
    refine Ensures.pure ⟨?_, hs, Nat.zero_le _, fun h => hv.closed (hd ▸ h)⟩
    rw [hy, hi]
    exact ht.reads.trans (hm.trans hv.reads)

theorem ternary_succ (ih : ExprRules n) (hc : c.Standard) :
    Ensures (Parser.ternary (n + 1)) c (ReadsExpr c 0)
      (Failure.Within (24 * c.rest.length + 15 ≤ n + 1)) := by
  rw [Parser.ternary]
  refine (ih.level .or c hc).bind (fun _ => Failure.Within.mono (by simp only [Level.rank]; omega))
    fun cond c₁ hcond => ?_
  have hc₁ := hcond.standard hc
  have hlt₁ := hcond.shorter
  refine Ensures.accept (fun question c₂ hq hk => ?_) fun _ =>
    Ensures.pure (hcond.weaken (Nat.zero_le _))
  have hq := hq.reads_mark hc₁ hk rfl
  have hc₂ := hq.standard hc₁
  have hlt₂ := hq.shorter (by simp)
  refine (ih.expression c₂ hc₂).bind (fun _ => Failure.Within.mono (by omega)) fun yes c₃ hy => ?_
  have hc₃ := hy.standard hc₂
  have hlt₃ := hy.shorter
  refine Ensures.accept (fun colon c₄ hm hk => ?_) fun hno => ?_
  · have hyd : yes.dangles = false := by
      -- a `:` follows, so the first branch cannot lack one
      by_contra h
      have := hy.closed (by simpa using h)
      simp [hm.sees, hk] at this
    have hm := hm.reads_mark hc₃ hk rfl
    have hlt₄ := hm.shorter (by simp)
    refine (ih.expression c₄ (hm.standard hc₃)).bind (fun _ => Failure.Within.mono (by omega))
      fun no c₅ hn => ?_
    refine Ensures.pure ⟨?_, ⟨hcond.rank_le, hcond.shaped, hy.shaped, hyd, hn.shaped⟩,
      Nat.zero_le _, hn.closed⟩
    simpa [Expr.yield, Expr.ids] using
      hcond.reads.trans (hq.trans (hy.reads.trans (hm.trans hn.reads)))
  · refine Ensures.pure ⟨?_, ⟨hcond.rank_le, hcond.shaped, hy.shaped⟩, Nat.zero_le _,
      fun _ => hno⟩
    simpa [Expr.yield, Expr.ids] using hcond.reads.trans (hq.trans hy.reads)

theorem level_succ (ih : ExprRules n) (l : Level) (hc : c.Standard) :
    Ensures (Parser.level (n + 1) l) c (ReadsExpr c l.rank)
      (Failure.Within (24 * c.rest.length + 2 * (7 - l.rank) + 2 ≤ n + 1)) := by
  rw [Parser.level]
  refine (ih.operand l c hc).bind (fun _ => Failure.Within.mono (by omega)) fun lhs c₁ hl => ?_
  have hlt₁ := hl.shorter
  exact (ih.chain l lhs c c₁ (hl.standard hc) (hl.weaken (Nat.le_succ _))).mono (fun _ _ h => h)
    fun _ => Failure.Within.mono (by omega)

theorem operand_succ (ih : ExprRules n) (l : Level) (hc : c.Standard) :
    Ensures (Parser.operand (n + 1) l) c (ReadsExpr c (l.rank + 1))
      (Failure.Within (24 * c.rest.length + 2 * (7 - l.rank) + 1 ≤ n + 1)) := by
  rw [Parser.operand]
  have hl := l.rank_lt_unaryRank
  simp only [unaryRank] at hl
  cases ht : l.tighter? with
  | some l' =>
    have hr := Level.rank_of_tighter? ht
    have := ih.level l' c hc
    rw [hr] at this
    exact this.mono (fun _ _ h => h) fun _ => Failure.Within.mono (by omega)
  | none =>
    have hr := Level.rank_of_tighter?_none ht
    have := ih.unary c hc
    rw [hr] at this
    exact this.mono (fun _ _ h => h) fun _ => Failure.Within.mono (by omega)

theorem chain_succ (ih : ExprRules n) (l : Level) (lhs : Expr) (c₀ : Cursor) (hc : c.Standard)
    (hl : ReadsExpr c₀ l.rank lhs c) :
    Ensures (Parser.chain (n + 1) l lhs) c (ReadsExpr c₀ l.rank)
      (Failure.Within (24 * c.rest.length + 1 ≤ n + 1)) := by
  rw [Parser.chain]
  refine Ensures.acceptAny (fun op c₁ ho hk => ?_) fun _ => Ensures.pure hl
  have hr := l.rank_lt_unaryRank
  simp only [unaryRank] at hr
  have ho := ho.reads
  have hc₁ := ho.standard hc
  have hlt₁ := ho.shorter (by simp)
  refine (ih.operand l c₁ hc₁).bind (fun _ => Failure.Within.mono (by omega)) fun rhs c₂ hrhs => ?_
  have hlt₂ := hrhs.shorter
  -- the node becomes the left operand of the rest of the chain
  exact (ih.chain l _ c₀ c₂ (hrhs.standard hc₁) (hl.node ho hk hrhs)).mono (fun _ _ h => h)
    fun _ => Failure.Within.mono (by omega)

theorem unary_succ (ih : ExprRules n) (hc : c.Standard) :
    Ensures (Parser.unary (n + 1)) c (ReadsExpr c unaryRank)
      (Failure.Within (24 * c.rest.length + 2 ≤ n + 1)) := by
  rw [Parser.unary]
  refine Ensures.acceptAny (fun op c₁ ho hk => ?_) fun _ => ?_
  · have ho := ho.reads
    have hlt₁ := ho.shorter (by simp)
    refine (ih.unary c₁ (ho.standard hc)).bind (fun _ => Failure.Within.mono (by omega))
      fun e c₂ he => ?_
    refine Ensures.pure (.of_rank_pos ?_ ⟨hk, he.rank_le, he.shaped⟩ le_rfl (by decide))
    exact ho.trans he.reads
  · refine (ih.primary c hc).bind (fun _ => Failure.Within.mono (by omega)) fun e c₁ he => ?_
    have hlt₁ := he.shorter
    exact (ih.suffixes e c c₁ (he.standard hc) he).mono (fun _ _ h => h.weaken (by decide))
      fun _ => Failure.Within.mono (by omega)

/-- The suffixes after a call. -/
theorem suffixes_call (ih : ExprRules n) {e : Expr} {args : List Expr} {paren : Token}
    {c₀ c₁ c₂ c₃ : Cursor} (hc : c.Standard) (he : ReadsExpr c₀ callRank e c)
    (hp : c.Reads [.mark .leftParen] [] c₁)
    (ha : c₁.Reads (Expr.yieldAll args) (Expr.idsAll args) c₂) (hs : Expr.ShapedAll args)
    (hn : args.length ≤ maxArguments) (hr : c₂.Reads [.mark .rightParen] [] c₃) :
    Ensures (Parser.suffixes n (.call e paren args)) c₃ (ReadsExpr c₀ callRank)
      (Failure.Within (24 * c.rest.length + 1 ≤ n + 1)) := by
  have hlt₁ := hp.shorter (by simp)
  have hlt₂ := ha.length
  have hlt₃ := hr.shorter (by simp)
  exact (ih.suffixes _ c₀ c₃ (hr.standard (ha.standard (hp.standard hc)))
    (he.call hp ha hs hn hr)).mono (fun _ _ h => h) fun _ => Failure.Within.mono (by omega)

theorem suffixes_succ (ih : ExprRules n) (e : Expr) (c₀ : Cursor) (hc : c.Standard)
    (he : ReadsExpr c₀ callRank e c) :
    Ensures (Parser.suffixes (n + 1) e) c (ReadsExpr c₀ callRank)
      (Failure.Within (24 * c.rest.length + 1 ≤ n + 1)) := by
  rw [Parser.suffixes]
  refine Ensures.accept (fun t c₁ hp hk => ?_) fun _ => ?_
  · have hp := hp.reads_mark hc hk rfl
    have hc₁ := hp.standard hc
    have hlt₁ := hp.shorter (by simp)
    refine Ensures.sees ?_
    split
    · refine Ensures.pure_bind (Ensures.expect (fun paren c₂ hr hk => ?_) fun _ => trivial)
      exact suffixes_call ih hc he hp (.refl c₁) trivial (Nat.zero_le _) (hr.reads_mark hc₁ hk rfl)
    · refine (ih.arguments 0 c₁ hc₁).bind (fun _ => Failure.Within.mono (by omega))
        fun args c₂ ha => ?_
      refine Ensures.expect (fun paren c₃ hr hk => ?_) fun _ => trivial
      exact suffixes_call ih hc he hp ha.reads ha.shaped (by have := ha.length_le; omega)
        (hr.reads_mark (ha.reads.standard hc₁) hk rfl)
  · refine Ensures.accept (fun t c₁ hd hk => ?_) fun _ => Ensures.pure he
    have hd := hd.reads_mark hc hk rfl
    have hc₁ := hd.standard hc
    have hlt₁ := hd.shorter (by simp)
    refine Ensures.expect (fun name c₂ hn hk => ?_) fun _ => trivial
    have hn := hn.reads
    have hlt₂ := hn.shorter (by simp)
    exact (ih.suffixes _ c₀ c₂ (hn.standard hc₁) (he.get hd hn hk)).mono (fun _ _ h => h)
      fun _ => Failure.Within.mono (by omega)

theorem arguments_succ (ih : ExprRules n) (count : Nat) (hc : c.Standard) :
    Ensures (Parser.arguments (n + 1) count) c (ReadsArgs c count)
      (Failure.Within (24 * c.rest.length + 17 ≤ n + 1)) := by
  rw [Parser.arguments]
  split_ifs with hcount
  · exact Ensures.reject trivial
  refine (ih.expression c hc).bind (fun _ => Failure.Within.mono (by omega)) fun arg c₁ ha => ?_
  have hc₁ := ha.standard hc
  have hlt₁ := ha.shorter
  refine Ensures.accept (fun t c₂ hm hk => ?_) fun _ => ?_
  · have hm := hm.reads_mark hc₁ hk rfl
    have hlt₂ := hm.shorter (by simp)
    refine (ih.arguments (count + 1) c₂ (hm.standard hc₁)).bind
      (fun _ => Failure.Within.mono (by omega)) fun rest c₃ hr => ?_
    refine Ensures.pure ⟨?_, ⟨ha.shaped, hr.shaped⟩, by simp, ?_⟩
    · rw [Expr.yieldAll_cons _ hr.ne_nil]
      exact ha.reads.trans (hm.trans hr.reads)
    · have := hr.length_le
      simp only [List.length_cons]
      omega
  · refine Ensures.pure ⟨?_, ⟨ha.shaped, trivial⟩, by simp, by simp; omega⟩
    simpa [Expr.yieldAll, Expr.idsAll] using ha.reads

/-- A literal is read from its token, which carries a value of the right sort. -/
theorem literal?_ensures (hc : c.Standard) {may : Failure → Prop} :
    Ensures literal? c (fun r c' => match r with
      | some e => ReadsExpr c callRank e c'
      | none => c' = c) may := by
  unfold literal?
  refine Ensures.acceptAny (fun t c₁ ht hk => ?_) fun _ => Ensures.pure rfl
  have hst := ht.standard hc
  have closed : ∀ d : Datum, d.fromText = true → d.yield = [t.sign] →
      ReadsExpr c callRank (.literal d) c₁ := by
    intro d hd hy
    refine .of_rank_pos ?_ hd le_rfl (by decide)
    simpa [Expr.yield, hy, Expr.ids] using ht.reads
  have word : ∀ {k : Kind}, t.kind = k → k.varies = false → [Sign.mark k] = [t.sign] := by
    intro k hk hv
    subst hk
    rw [hst.sign_eq_mark hv]
  simp only [List.mem_cons, List.not_mem_nil, or_false] at hk
  rcases hk with hk | hk | hk | hk | hk
  all_goals simp only [hk]
  · exact Ensures.pure (closed (.bool false) rfl (word hk rfl))
  · exact Ensures.pure (closed (.bool true) rfl (word hk rfl))
  · exact Ensures.pure (closed .nil rfl (word hk rfl))
  · simp only [Token.Standard, hk] at hst
    obtain ⟨x, hx⟩ := hst
    simp only [hx]
    exact Ensures.pure (closed (.number x) rfl (by simp [Token.sign, hk, hx, Datum.yield]))
  · simp only [Token.Standard, hk] at hst
    obtain ⟨x, hx, hl⟩ := hst
    simp only [hx]
    exact Ensures.pure (closed (.text x) rfl (by simp [Token.sign, hk, hl, Datum.yield]))

theorem primary_succ (ih : ExprRules n) (hc : c.Standard) :
    Ensures (Parser.primary (n + 1)) c (ReadsExpr c callRank)
      (Failure.Within (24 * c.rest.length + 1 ≤ n + 1)) := by
  rw [Parser.primary]
  refine (literal?_ensures hc).bind (fun _ h => h) fun r c₁ hr => ?_
  cases r with
  | some e => exact Ensures.pure hr
  | none =>
    subst hr
    refine Ensures.accept (fun name c₂ hn hk => ?_) fun _ => ?_
    · refine Ensures.freshId (Ensures.pure (.of_rank_pos ?_ hk le_rfl (by decide)))
      refine ⟨hn.reads.tokens, ?_, ?_⟩
      · simp [Numbered, Expr.ids, hn.nextId]
      · simp [Expr.ids, hn.nextId]
    · refine Ensures.accept (fun t c₂ hp hk => ?_) fun _ => Ensures.reject trivial
      have hp := hp.reads_mark hc hk rfl
      have hc₂ := hp.standard hc
      have hlt₂ := hp.shorter (by simp)
      refine (ih.expression c₂ hc₂).bind (fun _ => Failure.Within.mono (by omega))
        fun inner c₃ hi => ?_
      refine Ensures.expect (fun t' c₄ hr hk => ?_) fun _ => trivial
      refine Ensures.pure (.of_rank_pos ?_ hi.shaped le_rfl (by decide))
      simpa [Expr.yield, Expr.ids] using
        hp.trans (hi.reads.trans (hr.reads_mark (hi.standard hc₂) hk rfl))

end ExprRules

/-- The rules for expressions at every bound. -/
theorem exprRules (n : Nat) : ExprRules n := by
  induction n with
  | zero =>
    constructor
    all_goals intros
    all_goals exact Ensures.exhausted (by simp [Failure.Within])
  | succ n ih =>
    exact {
      expression := fun c hc => ih.expression_succ hc
      ternary := fun c hc => ih.ternary_succ hc
      level := fun l c hc => ih.level_succ l hc
      operand := fun l c hc => ih.operand_succ l hc
      chain := fun l lhs c₀ c hc hl => ih.chain_succ l lhs c₀ hc hl
      unary := fun c hc => ih.unary_succ hc
      suffixes := fun e c₀ c hc he => ih.suffixes_succ e c₀ hc he
      arguments := fun count c hc => ih.arguments_succ count hc
      primary := fun c hc => ih.primary_succ hc }

end Parser

end Wandika
