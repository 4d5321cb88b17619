import Wandika.Proofs.Parser.Composition
import Wandika.Proofs.Parser.DerivedExpressions
import Wandika.Proofs.Parser.Statements
import Wandika.Proofs.Tree.Viable

/-!
# The token that is to blame

When a rule rejects a token, it does so where it stands, and what it has read up to there could have
been continued. There are two exceptions. A list may have grown too long, and an assignment may have
been begun after something that cannot be assigned to: the latter is noticed only when its value has
been read.

* `Parser.Reaches`: a run of one action comes to run another one;
* `Parser.Misplaced`: a run takes the mark of an assignment after what is no target of one;
* `Cursor.Opens`: what stands between two cursors can be continued to a word of a form;
* `Parser.Blames`: when an action rejects a token, it is the next one, and what has been read can
  be continued, exceptions apart;
* `Parser.BlamesExpr`, `Parser.blamesExpr`: what the rules for expressions blame, at one bound and
  at every bound.
-/

namespace Wandika

open Grammar Grammar.Form

/-! ### Words between cursors -/

/-- The kinds of the tokens between the cursors. -/
def Cursor.Spells (c : Cursor) (w : List Kind) (c' : Cursor) : Prop :=
  ∃ us, c.rest = us ++ c'.rest ∧ us.map Token.kind = w

/-- What stands between the cursors can be continued to a word of the form. -/
def Cursor.Opens (c : Cursor) (a : Form) (c' : Cursor) : Prop :=
  ∃ w, c.Spells w c' ∧ Viable a w

namespace Cursor

variable {c c₁ c₂ : Cursor} {a b : Form} {u w : List Kind}

theorem Spells.refl (c : Cursor) : c.Spells [] c := ⟨[], rfl, rfl⟩

theorem Spells.trans (h : c.Spells u c₁) (h' : c₁.Spells w c₂) : c.Spells (u ++ w) c₂ := by
  obtain ⟨us, hus, rfl⟩ := h
  obtain ⟨vs, hvs, rfl⟩ := h'
  exact ⟨us ++ vs, by rw [hus, hvs, List.append_assoc], List.map_append⟩

theorem Takes.spells {t : Token} {k : Kind} (h : c.Takes t c₁) (hk : t.kind = k) :
    c.Spells [k] c₁ :=
  ⟨[t], h.rest, congrArg (fun k => [k]) hk⟩

theorem Reads.spells {signs : List Sign} {ids : List Int} (h : c.Reads signs ids c₁) :
    c.Spells (Sign.kinds signs) c₁ := by
  obtain ⟨ts, hts, -, rfl⟩ := h.tokens
  exact ⟨ts, hts, by simp [Sign.kinds, Function.comp_def]⟩

theorem Spells.opens (h : c.Spells w c₁) (hw : Viable a w) : c.Opens a c₁ := ⟨w, h, hw⟩

/-- After a word for what stands before a place, what is viable there is viable. -/
theorem Spells.opens_after (h : c.Spells u c₁) (hplace : ∀ w, Viable a w → Viable b (u ++ w))
    (ha : c₁.Opens a c₂) : c.Opens b c₂ := by
  obtain ⟨w, hw, hv⟩ := ha
  exact ⟨u ++ w, h.trans hw, hplace w hv⟩

end Cursor

namespace Parser

variable {α β : Type}

/-! ### Runs within a run -/

/-- A run of the first action, at the first cursor, comes to run the second one at the second
cursor. What is run before the second one has succeeded, and is composed of single actions. -/
inductive Reaches : ∀ {α β : Type}, Parser α → Cursor → Parser β → Cursor → Prop
  | here {α : Type} (act : Parser α) (c : Cursor) : Reaches act c act c
  | first {α β γ : Type} {act : Parser β} {next : β → Parser α} {sub : Parser γ} {c d : Cursor}
      (h : Reaches act c sub d) : Reaches (act >>= next) c sub d
  | later {α β γ : Type} {act : Parser β} {next : β → Parser α} {sub : Parser γ} {b : β}
      {c c₁ d : Cursor} (hact : Deepens act act) (hrun : act c = .ok b c₁)
      (h : Reaches (next b) c₁ sub d) : Reaches (act >>= next) c sub d

/-- Somewhere in the run, the mark of an assignment is taken after an expression that is no target
of one. -/
def Misplaced (act : Parser α) (c : Cursor) : Prop :=
  ∃ n d target d₁, Reaches act c (expression (n + 1)) d ∧ ternary n d = .ok target d₁ ∧
    d₁.sees .equal = true ∧ ¬ IsTarget target

theorem Misplaced.first {act : Parser β} {next : β → Parser α} {c : Cursor}
    (h : Misplaced act c) : Misplaced (act >>= next) c := by
  obtain ⟨n, d, target, d₁, hreach, h⟩ := h
  exact ⟨n, d, target, d₁, hreach.first, h⟩

theorem Misplaced.later {act : Parser β} {next : β → Parser α} {c c₁ : Cursor} {b : β}
    (hact : Deepens act act) (hrun : act c = .ok b c₁) (h : Misplaced (next b) c₁) :
    Misplaced (act >>= next) c := by
  obtain ⟨n, d, target, d₁, hreach, h⟩ := h
  exact ⟨n, d, target, d₁, hreach.later hact hrun, h⟩

/-! ### Blame -/

/-- The causes that tell that a list has grown too long. -/
def limitCauses : List ParseCause := [.tooManyParameters, .tooManyArguments]

/-- When the action rejects a token at the cursor, the token is the next one, and what has been read
since the earlier cursor opens a word of the form, unless a list has grown too long or an assignment
is misplaced. -/
def Blames (c₀ : Cursor) (act : Parser α) (c : Cursor) (a : Form) : Prop :=
  ∀ e c', act c = .error (.rejected e) c' →
    e.cause ∈ limitCauses ∨ Misplaced act c ∨ (e.token = c'.peek ∧ c₀.Opens a c')

namespace Blames

variable {c₀ c : Cursor} {a b : Form} {act : Parser α}

theorem of_misplaced (h : Misplaced act c) : Blames c₀ act c a := fun _ _ _ => Or.inr (Or.inl h)

theorem imp {d₀ : Cursor} (h : Blames c₀ act c a) (ho : ∀ c', c₀.Opens a c' → d₀.Opens b c') :
    Blames d₀ act c b :=
  fun e c' hrun => (h e c' hrun).imp_right (Or.imp_right (And.imp_right (ho c')))

theorem mono (h : Blames c₀ act c a) (hab : ∀ w, Viable a w → Viable b w) : Blames c₀ act c b :=
  h.imp fun _ ⟨w, hw, hv⟩ => ⟨w, hw, hab w hv⟩

/-- A rule that is called after a word for what stands before it. -/
theorem within {u : List Kind} (h : Blames c act c a) (hu : c₀.Spells u c)
    (hplace : ∀ w, Viable a w → Viable b (u ++ w)) : Blames c₀ act c b :=
  h.imp fun _ => hu.opens_after hplace

/-- The second action is run where the first one has ended. -/
theorem bind_ok {act : Parser β} {next : β → Parser α} {x : β} {c₁ : Cursor}
    (hact : Deepens act act) (hrun : act c = .ok x c₁) (h : Blames c₀ (next x) c₁ a) :
    Blames c₀ (act >>= next) c a := by
  intro e c' hall
  have hall : EStateM.bind act next c = .error (.rejected e) c' := hall
  unfold EStateM.bind at hall
  rw [hrun] at hall
  exact (h e c' hall).imp_right (Or.imp_left (Misplaced.later hact hrun))

/-- The second action is not run where the first one has failed. -/
theorem bind_error {act : Parser β} {next : β → Parser α} {f : Failure} {c₁ : Cursor}
    (hrun : act c = .error f c₁) (h : Blames c₀ act c a) : Blames c₀ (act >>= next) c a := by
  intro e c' hall
  have hall : EStateM.bind act next c = .error (.rejected e) c' := hall
  unfold EStateM.bind at hall
  rw [hrun] at hall
  cases hall
  exact (h e c₁ hrun).imp_right (Or.imp_left Misplaced.first)

theorem bind {act : Parser β} {next : β → Parser α} {mid : β → Cursor → Prop}
    {may : Failure → Prop} (hact : Deepens act act) (hpost : Ensures act c mid may)
    (h : Blames c₀ act c a) (hn : ∀ x c₁, act c = .ok x c₁ → mid x c₁ → Blames c₀ (next x) c₁ a) :
    Blames c₀ (act >>= next) c a := by
  unfold Ensures at hpost
  cases hrun : act c with
  | ok x c₁ =>
    rw [hrun] at hpost
    exact bind_ok hact hrun (hn x c₁ hrun hpost)
  | error f c₁ => exact bind_error hrun h

theorem pure (x : α) : Blames c₀ (Pure.pure x) c a := by
  intro e c' hrun
  have hrun : (EStateM.Result.ok x c : EStateM.Result Failure Cursor α) =
    .error (.rejected e) c' := hrun
  cases hrun

/-- A failure that is no rejection. -/
theorem throw {f : Failure} (h : ∀ e, f ≠ .rejected e) : Blames c₀ (throw f : Parser α) c a := by
  intro e c' hrun
  have hrun : (EStateM.Result.error f c : EStateM.Result Failure Cursor α) =
    .error (.rejected e) c' := hrun
  cases hrun
  exact absurd rfl (h e)

theorem exhausted : Blames c₀ (exhausted : Parser α) c a := throw (by simp)

theorem reject_limit {cause : ParseCause} (h : cause ∈ limitCauses) :
    Blames c₀ (reject cause : Parser α) c a := by
  rintro e c' ⟨⟩
  exact Or.inl h

theorem reject {cause : ParseCause} (h : c₀.Opens a c) :
    Blames c₀ (reject cause : Parser α) c a := by
  rintro e c' ⟨⟩
  exact Or.inr (Or.inr ⟨rfl, h⟩)

/-! ### Single tokens -/

theorem pure_bind {x : β} {next : β → Parser α} (h : Blames c₀ (next x) c a) :
    Blames c₀ (Pure.pure x >>= next) c a := h

theorem sees {kind : Kind} {next : Bool → Parser α} (h : Blames c₀ (next (c.sees kind)) c a) :
    Blames c₀ (sees kind >>= next) c a :=
  bind_ok (.single (.sees kind)) rfl h

theorem atEnd {next : Bool → Parser α} (h : Blames c₀ (next c.atEnd) c a) :
    Blames c₀ (atEnd >>= next) c a :=
  bind_ok (.single .atEnd) rfl h

theorem freshId {next : Nat → Parser α}
    (h : Blames c₀ (next c.nextId) { c with nextId := c.nextId + 1 } a) :
    Blames c₀ (freshId >>= next) c a :=
  bind_ok (.single .freshId) rfl h

theorem acceptAny {kinds : List Kind} {next : Option Token → Parser α}
    (hs : ∀ t c', c.Takes t c' → t.kind ∈ kinds → Blames c₀ (next (some t)) c' a)
    (hn : Blames c₀ (next none) c a) : Blames c₀ (acceptAny kinds >>= next) c a := by
  by_cases h : kinds.any c.sees = true
  · obtain ⟨k, hk, hck⟩ := List.any_eq_true.1 h
    obtain ⟨ht, hkind⟩ := Cursor.sees_eq_true hck
    exact bind_ok (.acceptAny kinds) (if_pos h) (hs _ _ ht (hkind ▸ hk))
  · exact bind_ok (.acceptAny kinds) (if_neg h) hn

theorem accept {kind : Kind} {next : Option Token → Parser α}
    (hs : ∀ t c', c.Takes t c' → t.kind = kind → Blames c₀ (next (some t)) c' a)
    (hn : Blames c₀ (next none) c a) : Blames c₀ (accept kind >>= next) c a :=
  acceptAny (fun t c' ht hk => hs t c' ht (by simpa using hk)) hn

theorem expect {kind : Kind} {cause : ParseCause} {next : Token → Parser α} (ho : c₀.Opens a c)
    (hs : ∀ t c', c.Takes t c' → t.kind = kind → Blames c₀ (next t) c' a) :
    Blames c₀ (expect kind cause >>= next) c a := by
  by_cases h : c.sees kind = true
  · obtain ⟨ht, hkind⟩ := Cursor.sees_eq_true h
    exact bind_ok (.expect kind cause) (if_pos h) (hs _ _ ht hkind)
  · refine bind_error (if_neg h) fun e c' hrun => ?_
    unfold Parser.expect at hrun
    rw [if_neg h] at hrun
    cases hrun
    exact Or.inr (Or.inr ⟨rfl, ho⟩)

/-- A literal is never rejected. -/
theorem literal? : Blames c₀ literal? c a := by
  refine acceptAny (fun t c' _ _ => ?_) (pure none)
  dsimp only
  split
  · exact pure _
  · exact pure _
  · exact pure _
  · exact pure _
  · exact pure _
  · exact throw (by simp)

end Blames

/-! ### Expressions -/

theorem ReadsExpr.derives {c c' : Cursor} {m : Nat} {e : Expr} (h : ReadsExpr c m e c') :
    Derives (rule (.ofRank m)) (Sign.kinds e.yield) :=
  derives_expr h.shaped m h.rank_le

/-- A target ends in a name. -/
theorem IsTarget.derives {e : Expr} (h : IsTarget e) (hs : e.Shaped) :
    ∃ name, Derives (opt (rule .call ++ tok .dot)) name ∧
      Sign.kinds e.yield = name ++ [.identifier] := by
  rcases h with ⟨id, name, rfl⟩ | ⟨object, name, rfl⟩
  · have hn : name.kind = .identifier := hs
    exact ⟨[], .absent, by simp [Expr.yield, hn]⟩
  · obtain ⟨hr, ho, hn⟩ := hs
    refine ⟨_, .present (.seq (derives_expr ho callRank hr.ge) (.tok .dot)), ?_⟩
    simp [Expr.yield, hn]

/-- What the rules for expressions blame at the bound `n`. -/
structure BlamesExpr (n : Nat) : Prop where
  expression : ∀ c : Cursor, c.Standard → Blames c (expression n) c (rule .expr)
  ternary : ∀ c : Cursor, c.Standard → Blames c (ternary n) c (rule .ternary)
  level : ∀ (l : Level) (c : Cursor), c.Standard →
    Blames c (level n l) c (rule (.ofRank l.rank))
  operand : ∀ (l : Level) (c : Cursor), c.Standard →
    Blames c (operand n l) c (rule (.ofRank (l.rank + 1)))
  chain : ∀ (l : Level) (lhs : Expr) (c₀ c : Cursor), c.Standard → ReadsExpr c₀ l.rank lhs c →
    Blames c₀ (chain n l lhs) c (rule (.ofRank l.rank))
  unary : ∀ c : Cursor, c.Standard → Blames c (unary n) c (rule .unary)
  suffixes : ∀ (e : Expr) (c₀ c : Cursor), c.Standard → ReadsExpr c₀ callRank e c →
    Blames c₀ (suffixes n e) c (rule .call)
  arguments : ∀ (count : Nat) (c : Cursor), c.Standard →
    Blames c (arguments n count) c (listFrom (rule .expr) count)
  primary : ∀ c : Cursor, c.Standard → Blames c (primary n) c (rule .primary)

namespace BlamesExpr

variable {n : Nat} {c c₀ : Cursor}

theorem expression_succ (ih : BlamesExpr n) (hc : c.Standard) :
    Blames c (Parser.expression (n + 1)) c (rule .expr) := by
  by_cases hm : Misplaced (Parser.expression (n + 1)) c
  · exact .of_misplaced hm
  have htarget : ∀ target d, Parser.ternary n c = .ok target d → d.sees .equal = true →
      IsTarget target := by
    intro target d hrun hsees
    by_contra hno
    exact hm ⟨n, c, target, d, .here _ _, hrun, hsees, hno⟩
  have composed := Deepens.expressions (Nat.le_refl n)
  rw [Parser.expression]
  refine .bind composed.ternary ((exprRules n).ternary c hc)
    ((ih.ternary c hc).mono fun w => viable_expr_of_ternary) fun target c₁ hrun ht => ?_
  refine .accept (fun equals c₂ hq hk => ?_) (.pure target)
  have hc₂ := hq.reads.standard (ht.standard hc)
  have htarget := htarget target c₁ hrun (by simp [hq.sees, hk])
  obtain ⟨name, hname, hkinds⟩ := htarget.derives ht.shaped
  have hu := ht.reads.spells.trans (hq.spells hk)
  rw [hkinds] at hu
  refine .bind composed.expression ((exprRules n).expression c₂ hc₂)
    ((ih.expression c₂ hc₂).within hu fun w h => ?_) fun value c₃ _ _ => ?_
  · simpa using viable_value hname h
  · obtain ⟨e, he⟩ := DerivedExpr.assignment?_of_isTarget htarget value
    rw [he]
    exact .pure e

theorem ternary_succ (ih : BlamesExpr n) (hc : c.Standard) :
    Blames c (Parser.ternary (n + 1)) c (rule .ternary) := by
  have composed := Deepens.expressions (Nat.le_refl n)
  rw [Parser.ternary]
  refine .bind (composed.level .or) ((exprRules n).level .or c hc)
    ((ih.level .or c hc).mono fun w h => ?_) fun cond c₁ _ hcond => ?_
  · exact .rule (.first h .absent)
  have hcond' : Derives (rule .logicOr) (Sign.kinds cond.yield) := hcond.derives
  refine .accept (fun question c₂ hq hk => ?_) (.pure cond)
  have hc₂ := hq.reads.standard (hcond.standard hc)
  have hu := hcond.reads.spells.trans (hq.spells hk)
  refine .bind composed.expression ((exprRules n).expression c₂ hc₂)
    ((ih.expression c₂ hc₂).within hu fun w h => ?_) fun yes c₃ _ hy => ?_
  · simpa using viable_yes hcond' h
  have hyes : Derives (rule .expr) (Sign.kinds yes.yield) := hy.derives
  refine .accept (fun colon c₄ hm hk => ?_) (.pure _)
  have hc₄ := hm.reads.standard (hy.standard hc₂)
  have hv := hu.trans (hy.reads.spells.trans (hm.spells hk))
  refine .bind composed.expression ((exprRules n).expression c₄ hc₄)
    ((ih.expression c₄ hc₄).within hv fun w h => ?_) fun no c₅ _ _ => .pure _
  simpa using viable_no hcond' hyes h

theorem level_succ (ih : BlamesExpr n) (l : Level) (hc : c.Standard) :
    Blames c (Parser.level (n + 1) l) c (rule (.ofRank l.rank)) := by
  have composed := Deepens.expressions (Nat.le_refl n)
  rw [Parser.level]
  refine .bind (composed.operand l) ((exprRules n).operand l c hc)
    ((ih.operand l c hc).mono fun w => viable_of_tighter) fun lhs c₁ _ hl => ?_
  exact ih.chain l lhs c c₁ (hl.standard hc) (hl.weaken (Nat.le_succ _))

theorem operand_succ (ih : BlamesExpr n) (l : Level) (hc : c.Standard) :
    Blames c (Parser.operand (n + 1) l) c (rule (.ofRank (l.rank + 1))) := by
  rw [Parser.operand]
  cases ht : l.tighter? with
  | some l' =>
    rw [← Level.rank_of_tighter? ht]
    exact ih.level l' c hc
  | none =>
    rw [← Level.rank_of_tighter?_none ht]
    exact ih.unary c hc

theorem chain_succ (ih : BlamesExpr n) (l : Level) (lhs : Expr) (hc : c.Standard)
    (hl : ReadsExpr c₀ l.rank lhs c) :
    Blames c₀ (Parser.chain (n + 1) l lhs) c (rule (.ofRank l.rank)) := by
  have composed := Deepens.expressions (Nat.le_refl n)
  rw [Parser.chain]
  refine .acceptAny (fun op c₁ ho hk => ?_) (.pure lhs)
  have hc₁ := ho.reads.standard hc
  have hu := hl.reads.spells.trans (ho.spells rfl)
  refine .bind (composed.operand l) ((exprRules n).operand l c₁ hc₁)
    ((ih.operand l c₁ hc₁).within hu fun w h => ?_) fun rhs c₂ _ hr => ?_
  · simpa using viable_operand hl.derives hk h
  · exact ih.chain l _ c₀ c₂ (hr.standard hc₁) (hl.node ho.reads hk hr)

theorem unary_succ (ih : BlamesExpr n) (hc : c.Standard) :
    Blames c (Parser.unary (n + 1)) c (rule .unary) := by
  have composed := Deepens.expressions (Nat.le_refl n)
  rw [Parser.unary]
  refine .acceptAny (fun op c₁ ho hk => ?_) ?_
  · have hc₁ := ho.reads.standard hc
    refine .bind composed.unary ((exprRules n).unary c₁ hc₁)
      ((ih.unary c₁ hc₁).within (ho.spells rfl) fun w => viable_negated hk) fun e c₂ _ _ => ?_
    exact .pure _
  · have hcall : ∀ w, Viable (rule .call) w → Viable (rule .unary) w :=
      fun w h => .rule (.right h)
    refine .bind composed.primary ((exprRules n).primary c hc)
      ((ih.primary c hc).mono fun w h => hcall w (viable_call_of_primary h)) fun e c₁ _ he => ?_
    exact (ih.suffixes e c c₁ (he.standard hc) he).mono hcall

/-- Arguments that have been read. -/
theorem derives_listFrom {args : List Expr} {c' : Cursor} (h : ReadsArgs c 0 args c') :
    Derives (listFrom (rule .expr) 0) (Sign.kinds (Expr.yieldAll args)) := by
  cases args with
  | nil => exact absurd rfl h.ne_nil
  | cons e es =>
    have hlength : 0 + (es.length + 1) ≤ maxArguments := h.length_le
    exact derives_rule.1 (derives_args (by omega) (derives_exprs h.shaped))

theorem suffixes_succ (ih : BlamesExpr n) (e : Expr) (hc : c.Standard)
    (he : ReadsExpr c₀ callRank e c) : Blames c₀ (Parser.suffixes (n + 1) e) c (rule .call) := by
  have composed := Deepens.expressions (Nat.le_refl n)
  have hcallee : Derives (rule .call) (Sign.kinds e.yield) := he.derives
  rw [Parser.suffixes]
  refine .accept (fun t c₁ hp hk => ?_) (.accept (fun t c₁ hd hk => ?_) (.pure e))
  · have hc₁ := hp.reads.standard hc
    have hu := he.reads.spells.trans (hp.spells hk)
    have hplace : ∀ w, Viable (listFrom (rule .expr) 0) w →
        Viable (rule .call) ((Sign.kinds e.yield ++ [.leftParen]) ++ w) :=
      fun w h => by simpa using viable_call_arguments hcallee h
    -- what follows the arguments, whether there are any or not
    have closing : ∀ (args : List Expr) (c₂ : Cursor),
        c₁.Reads (Expr.yieldAll args) (Expr.idsAll args) c₂ → Expr.ShapedAll args →
        args.length ≤ maxArguments → c₀.Opens (rule .call) c₂ →
        Blames c₀ (do
          let paren ← Parser.expect .rightParen .endOfArguments
          Parser.suffixes n (.call e paren args)) c₂ (rule .call) := by
      intro args c₂ ha hs hn ho
      refine .expect ho fun paren c₃ hr hk' => ?_
      have hc₂ := ha.standard hc₁
      exact ih.suffixes _ c₀ c₃ (hr.reads.standard hc₂) (he.call (hp.reads_mark hc hk rfl) ha hs hn
        (hr.reads_mark hc₂ hk' rfl))
    refine .sees ?_
    split
    · refine .pure_bind (closing [] c₁ (.refl c₁) trivial (Nat.zero_le _) ?_)
      refine hu.opens (Viable.of_append (w := []) (hplace [] ?_))
      exact viable_listFrom_of_member (viable_nil_expr 0)
    · refine .bind (composed.arguments 0) ((exprRules n).arguments 0 c₁ hc₁)
        ((ih.arguments 0 c₁ hc₁).within hu hplace) fun args c₂ _ ha => ?_
      refine closing args c₂ ha.reads ha.shaped (by simpa using ha.length_le) ?_
      refine (hu.trans ha.reads.spells).opens (hplace _ (derives_listFrom ha).viable)
  · have hc₁ := hd.reads.standard hc
    have hu := he.reads.spells.trans (hd.spells hk)
    refine .expect (hu.opens (viable_property hcallee)) fun name c₂ hn hk' => ?_
    exact ih.suffixes _ c₀ c₂ (hn.reads.standard hc₁)
      (he.get (hd.reads_mark hc hk rfl) hn.reads hk')

/-- After too many arguments, nothing is blamed but their number. -/
theorem arguments_limit {count : Nat} (h : maxArguments ≤ count) {a : Form} :
    Blames c₀ (Parser.arguments n count) c a := by
  cases n with
  | zero => exact .exhausted
  | succ n =>
    rw [Parser.arguments, if_pos h]
    exact .reject_limit (by simp [limitCauses])

theorem arguments_succ (ih : BlamesExpr n) (count : Nat) (hc : c.Standard) :
    Blames c (Parser.arguments (n + 1) count) c (listFrom (rule .expr) count) := by
  have composed := Deepens.expressions (Nat.le_refl n)
  rw [Parser.arguments]
  split_ifs with hcount
  · exact .reject_limit (by simp [limitCauses])
  refine .bind composed.expression ((exprRules n).expression c hc)
    ((ih.expression c hc).mono fun w => viable_listFrom_of_member) fun arg c₁ _ ha => ?_
  refine .accept (fun t c₂ hm hk => ?_) (.pure _)
  have hc₂ := hm.reads.standard (ha.standard hc)
  have hu := ha.reads.spells.trans (hm.spells hk)
  have harg : Derives (rule .expr) (Sign.kinds arg.yield) := ha.derives
  refine .bind (composed.arguments _) ((exprRules n).arguments _ c₂ hc₂) ?_ fun _ _ _ _ => .pure _
  by_cases hlast : count < 254
  · refine (ih.arguments (count + 1) c₂ hc₂).within hu fun w h => ?_
    simpa using viable_listFrom_append hlast harg h
  · refine arguments_limit ?_
    simp only [maxArguments]
    omega

theorem primary_succ (ih : BlamesExpr n) (hc : c.Standard) :
    Blames c (Parser.primary (n + 1)) c (rule .primary) := by
  have composed := Deepens.expressions (Nat.le_refl n)
  have hnil : Viable (rule .primary) [] :=
    ⟨[.nilWord], .rule (.left (.left (.right (.tok .nilWord))))⟩
  rw [Parser.primary]
  have hliteral : Ensures Parser.literal? c _ fun _ => True := ExprRules.literal?_ensures hc
  refine .bind .literal? hliteral .literal? fun r c₁ _ hr => ?_
  cases r with
  | some e => exact .pure e
  | none =>
    subst hr
    refine .accept (fun name c₂ _ _ => .freshId (.pure _)) (.accept (fun t c₂ hp hk => ?_) ?_)
    · have hc₂ := hp.reads.standard hc
      have hu := hp.spells hk
      refine .bind composed.expression ((exprRules n).expression c₂ hc₂)
        ((ih.expression c₂ hc₂).within hu fun w => viable_group) fun inner c₃ _ hi => ?_
      have hinner : Derives (rule .expr) (Sign.kinds inner.yield) := hi.derives
      exact .expect ((hu.trans hi.reads.spells).opens (viable_group hinner.viable))
        fun _ _ _ _ => .pure _
    · exact .reject ((Cursor.Spells.refl c₁).opens hnil)

end BlamesExpr

/-- What the rules for expressions blame at every bound. -/
theorem blamesExpr (n : Nat) : BlamesExpr n := by
  induction n with
  | zero =>
    constructor
    all_goals intros
    all_goals exact .exhausted
  | succ n ih =>
    exact {
      expression := fun c hc => ih.expression_succ hc
      ternary := fun c hc => ih.ternary_succ hc
      level := fun l c hc => ih.level_succ l hc
      operand := fun l c hc => ih.operand_succ l hc
      chain := fun l lhs c₀ c hc hl => ih.chain_succ l lhs hc hl
      unary := fun c hc => ih.unary_succ hc
      suffixes := fun e c₀ c hc he => ih.suffixes_succ e hc he
      arguments := fun count c hc => ih.arguments_succ count hc
      primary := fun c hc => ih.primary_succ hc }

end Parser

end Wandika
