import Wandika.Proofs.Machine.StoreChanges

/-!
# Every step keeps scopes and frames aligned

One lemma for each sort of step: the beginning of an expression or a statement, and a value, a
completion or an error that is handed to the work that waits for it.
-/

namespace Wandika

/-! ### Operators make no functions -/

theorem closures_applyUnary {op : Token} {a v : Value} (h : applyUnary op a = .ok v) :
    v.closures = [] := by
  unfold applyUnary at h
  split at h
  · cases h
    rfl
  · split at h
    · cases h
      rfl
    · cases h
  · cases h

theorem closures_arithmetic {op : Token} {x y : Float} {v : Value}
    (h : arithmetic op x y = .ok v) : v.closures = [] := by
  unfold arithmetic at h
  split at h
  · cases h
    rfl
  · cases h
    rfl
  · split_ifs at h
    cases h
    rfl
  · split_ifs at h
    cases h
    rfl
  · cases h
    rfl
  · cases h

theorem closures_add (a b : Value) : (add a b).closures = [] := by
  unfold add
  split <;> rfl

theorem closures_applyBinary {op : Token} {a b v : Value} (h : applyBinary op a b = .ok v) :
    v.closures = [] := by
  unfold applyBinary at h
  split at h
  case h_7 => cases h; exact closures_add a b
  case h_8 =>
    cases hn : numbers op a b with
    | error e => rw [hn] at h; cases h
    | ok xy => rw [hn] at h; exact closures_arithmetic h
  all_goals cases h; rfl

/-! ### Expressions -/

/-- A value that a variable holds is known. -/
theorem StoreOk.valueOf? {t : Trail} {s : State} (h : StoreOk t s.store) {id : Int} {name : Token}
    {v : Value} (hv : s.valueOf? id name = some v) : t.KnowsValue s.store.frames v := by
  obtain ⟨frame, -, hl⟩ := Option.bind_eq_some_iff.1 hv
  exact h.bound hl

theorem isSome_of_holderWithin {fs : Frames Value} {name : String} {frame : FrameId} :
    ∀ {steps : Nat} {id : FrameId}, fs.holderWithin name steps id = some frame →
      (fs.lookup frame name).isSome := by
  intro steps
  induction steps with
  | zero => intro id h; cases h
  | succ steps ih =>
    intro id h
    simp only [Frames.holderWithin] at h
    split_ifs at h with hb
    · cases h
      exact hb
    · obtain ⟨outer, -, h⟩ := Option.bind_eq_some_iff.1 h
      exact ih h

theorem gain_branch_left (yes : Stmt) (no : Option Stmt) :
    (Pending.branch yes no).gain ⊆ yes.settles := by
  cases no with
  | none => exact List.nil_subset _
  | some no => exact fun x hx => (List.mem_filter.1 hx).1

theorem gain_branch_right (yes no : Stmt) :
    (Pending.branch yes (some no)).gain ⊆ no.settles := by
  intro x hx
  simpa using (List.mem_filter.1 hx).2

/-- The frame that holds a variable binds it. -/
theorem isSome_of_holder? {s : State} {id : Int} {name : Token} {frame : FrameId}
    (h : s.holder? id name = some frame) : (s.store.frames.lookup frame name.lexeme).isSome := by
  unfold State.holder? at h
  split at h
  · exact (Option.filter_eq_some_iff.1 h).2
  · exact isSome_of_holderWithin h

namespace Aligned

variable {t : Trail} {s : State}

theorem evalStep (h : Aligned t s) {e : Expr} (hc : s.control = .eval e) :
    Aligned t (s.evalStep e) := by
  obtain ⟨gain, hctl, hstk⟩ := h.work
  rw [hc] at hctl
  obtain ⟨rfl, layers, hh, he⟩ := hctl
  have sub : ∀ e', e'.mentions ⊆ e.mentions →
      PlacedExpr t s.store.frames t.unit s.registers.frame e' :=
    fun e' hs => ⟨layers, hh, he.of_mentions hs⟩
  -- an operand is evaluated first, and work of the same place waits for it
  have push : ∀ e' k, e'.mentions ⊆ e.mentions → k.gain = [] →
      PendingOk t s.store.frames t.unit s.registers.frame [] k →
      Aligned t (s.push (.eval e') k) :=
    fun e' k hs hg hk => ⟨h.store, h.locals, [], ⟨rfl, sub e' hs⟩, .work hk (hg ▸ hstk)⟩
  cases e with
  | assign id name value =>
    exact push value _ (by simp [Expr.mentions]) rfl
      ⟨layers, hh, he.node (by simp [Expr.mentions])⟩
  | binary op lhs rhs =>
    exact push lhs _ (by simp [Expr.mentions]) rfl (sub rhs (by simp [Expr.mentions]))
  | call callee paren args =>
    exact push callee _ (by simp [Expr.mentions]) rfl
      fun e' he' => ⟨layers, hh, he.arguments e' he'⟩
  | get object name => exact push object _ (by simp [Expr.mentions]) rfl trivial
  | group inner => exact ⟨h.store, h.locals, [], ⟨rfl, sub inner (by simp [Expr.mentions])⟩, hstk⟩
  | literal d =>
    have hd : ∀ d', Aligned t (s.goto (.value (.datum d'))) :=
      fun d' => ⟨h.store, h.locals, [], t.knowsValue_datum d', hstk⟩
    cases d <;> exact hd _
  | logical op lhs rhs =>
    exact push lhs _ (by simp [Expr.mentions]) rfl (sub rhs (by simp [Expr.mentions]))
  | set object name value =>
    exact push object _ (by simp [Expr.mentions]) rfl (sub value (by simp [Expr.mentions]))
  | ternary cond question yes no =>
    cases no with
    | none =>
      exact push cond _ (by simp [Expr.mentions]) rfl ⟨sub yes (by simp [Expr.mentions]), by simp⟩
    | some no =>
      refine push cond _ (by simp [Expr.mentions]) rfl ⟨sub yes (by simp [Expr.mentions]), ?_⟩
      rintro e' ⟨⟩
      exact sub no (by simp [Expr.mentions])
  | unary op operand => exact push operand _ (by simp [Expr.mentions]) rfl trivial
  | «variable» id name =>
    simp only [State.evalStep]
    split
    · rename_i v hv
      exact ⟨h.store, h.locals, [], h.store.valueOf? hv, hstk⟩
    · exact ⟨h.store, h.locals, [], trivial, hstk⟩

/-! ### Statements -/

theorem execStep (h : Aligned t s) (mode : Mode) {stmt : Stmt} (hc : s.control = .exec stmt) :
    Aligned (t.step mode s) (s.execStep stmt) := by
  obtain ⟨control, stack, registers, store, output⟩ := s
  obtain ⟨hst, hloc, gain, hctl, hstk⟩ := h
  dsimp only at hc hst hloc hctl hstk
  subst hc
  obtain ⟨hgain, layers, hh, hs⟩ := hctl
  -- an expression is evaluated first, and work of the same place waits for its value
  have push : ∀ layers e k, t.Holds store.frames t.unit layers registers.frame →
      t.unit.HasExpr layers e → gain ⊆ k.gain →
      PendingOk t store.frames t.unit registers.frame [] k →
      Aligned t (State.push ⟨.exec stmt, stack, registers, store, output⟩ (.eval e) k) :=
    fun layers e k hh he hg hk =>
      ⟨hst, hloc, [], ⟨rfl, layers, hh, he⟩, .work hk (hstk.gain_mono hg)⟩
  cases stmt with
  | block body =>
    obtain ⟨hg, hst', hh'⟩ := hst.openBlock hh body
    -- a block binds nothing in the frame around it
    rw [show gain = [] from List.subset_nil.1 hgain] at hstk
    refine ⟨hst', hloc, [], controlOk_next _ _ _ _,
      .work ⟨_, [], List.Subset.refl _, hh', ?_⟩ (.block (hstk.mono hg))⟩
    rw [settle_nil]
    exact hs.block
  | classDecl name methods =>
    obtain ⟨hg, hst', hb⟩ := hst.declareClass hh hs.1
    exact ⟨hst', hloc, [name.lexeme], controlOk_bound hb, (hstk.gain_mono hgain).mono hg⟩
  | expr value => exact push layers value _ hh (hs.value (Or.inl rfl)) hgain trivial
  | function decl =>
    obtain ⟨hg, hst', hb⟩ := hst.declareFunction hh hs
    rw [← hloc] at hg hst' hb
    exact ⟨hst', hloc, [decl.name.lexeme], controlOk_bound hb, (hstk.gain_mono hgain).mono hg⟩
  | branch cond yes no =>
    obtain ⟨hcond, hyes, hno⟩ := hs.branch
    refine push layers cond _ hh hcond ?_
      ⟨⟨layers, hh, hyes⟩, fun s hs => ⟨_, hh.doubt _, hno s hs⟩⟩
    cases no <;> exact hgain
  | print value => exact push layers value _ hh (hs.value (Or.inr (Or.inl rfl))) hgain trivial
  | ret keyword value =>
    cases value with
    | none => exact ⟨hst, hloc, gain, t.knowsValue_datum _, hstk⟩
    | some value =>
      exact push layers value _ hh (hs.value (Or.inr (Or.inr ⟨keyword, rfl⟩))) hgain trivial
  | varDecl name init =>
    cases init with
    | none =>
      obtain ⟨hg, hst', hb⟩ := hst.bind hh hs.1 (t.knowsValue_datum .nil)
      exact ⟨hst', hloc, [name.lexeme], controlOk_bound hb, (hstk.gain_mono hgain).mono hg⟩
    | some init =>
      exact push _ init _ (hh.doubt _) hs.init hgain ⟨layers, hh, hs.1⟩
  | loop cond body =>
    obtain ⟨hcond, hbody⟩ := hs.loop
    exact push layers cond _ hh hcond hgain ⟨⟨layers, hh, hcond⟩, ⟨layers, hh, hbody⟩⟩

/-! ### Calls -/

/-- A call of a known value with known arguments. -/
theorem called {mode : Mode} {callee : Value} {args : List Value} {s' : State}
    (hst : StoreOk t s.store) (hloc : s.registers.locals = t.unit.locals)
    (hcallee : t.KnowsValue s.store.frames callee)
    (hargs : ∀ v ∈ args, t.KnowsValue s.store.frames v)
    (hstk : StackOk t s.store.frames t.unit s.registers.frame [] t.callers s.stack)
    (hcall : State.Calls mode s callee args s') :
    Aligned (match s.target? mode callee args.length with
      | some f => t.enter s.store.frames.size f
      | none => t) s' := by
  cases hcall with
  | runs mem arity target =>
    rename_i f
    rw [target]
    obtain ⟨hg, hst', hcallers, hlocals, layers, hh, hb⟩ := hst.enter (hcallee f mem) hargs arity
    -- the function goes on at the place of its body, and the caller waits below
    refine ⟨hst', hlocals, [], controlOk_next _ _ _ _,
      .work ⟨layers, [], List.Subset.refl _, hh, ?_⟩ ?_⟩
    · rw [settle_nil]
      exact hb
    · rw [hcallers]
      exact .call hloc (hstk.mono hg)
  | makes c target =>
    rw [target]
    exact ⟨hst.newObject c, hloc, [], t.knowsValue_datum _, hstk⟩
  | fails e target =>
    rw [target]
    exact ⟨hst, hloc, [], trivial, hstk⟩

/-! ### Values -/

/-- A variable that is assigned to was bound before. -/
theorem assigned {id : Int} {name : Token} {v : Value} {frame : FrameId}
    (hst : StoreOk t s.store) (hv : t.KnowsValue s.store.frames v)
    (hf : s.holder? id name = some frame) :
    t.Grows s.store.frames t (s.store.define frame name.lexeme v).frames ∧
      StoreOk t (s.store.define frame name.lexeme v) := by
  have hb := isSome_of_holder? hf
  have hlt := Frames.lt_of_lookup hb
  have hg := t.grows_define hlt name.lexeme v
  exact ⟨hg, hst.define hlt (hv.mono hg) fun hne => hst.declared hne hb⟩

/-- A completion that binds nothing. -/
theorem finished (hst : StoreOk t s.store) (hloc : s.registers.locals = t.unit.locals)
    (hstk : StackOk t s.store.frames t.unit s.registers.frame [] t.callers s.stack) :
    Aligned t (s.goto (.done .next)) :=
  ⟨hst, hloc, [], controlOk_next _ _ _ _, hstk⟩

theorem valueStep (h : Aligned t s) (mode : Mode) {v : Value} {k : Pending} {ks : List Pending}
    (hc : s.control = .value v) (hk : s.stack = k :: ks) :
    Aligned (t.step mode s) (State.valueStep mode { s with stack := ks } v k) := by
  obtain ⟨control, stack, registers, store, output⟩ := s
  obtain ⟨hst, hloc, gain, hv, hstk⟩ := h
  dsimp only at hc hk hst hloc hv hstk
  subst hc hk
  have hv : t.KnowsValue store.frames v := hv
  have hsame : Aligned t ⟨.value v, k :: ks, registers, store, output⟩ :=
    ⟨hst, hloc, gain, hv, hstk⟩
  rcases hstk.cons_inv with ⟨top, rest⟩ | ⟨outer, rfl, -⟩ | ⟨saved, caller, callers, rfl, -, -, -⟩
  case inr.inl => exact hsame
  case inr.inr => exact hsame
  -- an error, and a value that is known, may take the place of the value at any time
  have fail : ∀ e, k.gain = [] → Aligned t ⟨.raise e, ks, registers, store, output⟩ :=
    fun e hg => ⟨hst, hloc, [], trivial, hg ▸ rest⟩
  have give : ∀ w, k.gain = [] → t.KnowsValue store.frames w →
      Aligned t ⟨.value w, ks, registers, store, output⟩ :=
    fun w hg hw => ⟨hst, hloc, [], hw, hg ▸ rest⟩
  have eval : ∀ e, k.gain = [] → PlacedExpr t store.frames t.unit registers.frame e →
      Aligned t ⟨.eval e, ks, registers, store, output⟩ :=
    fun e hg he => ⟨hst, hloc, [], ⟨rfl, he⟩, hg ▸ rest⟩
  cases k with
  | assign id name =>
    simp only [State.valueStep]
    split
    · rename_i frame hf
      obtain ⟨hg, hst'⟩ := assigned hst hv hf
      exact ⟨hst', hloc, [], hv.mono hg, StackOk.mono hg rest⟩
    · exact fail _ rfl
  | rightOperand op rhs => exact ⟨hst, hloc, [], ⟨rfl, top⟩, .work hv rest⟩
  | binary op lhs =>
    simp only [State.valueStep]
    cases ha : applyBinary op lhs v with
    | error e => exact fail e rfl
    | ok w => exact give w rfl (by intro f hf; rw [closures_applyBinary ha] at hf; cases hf)
  | callee paren args =>
    cases args with
    | nil =>
      exact @called t ⟨.value v, ks, registers, store, output⟩ mode v [] _ hst hloc hv
        (fun _ hw => absurd hw List.not_mem_nil) rest State.calls_call
    | cons arg args =>
      simp only [PendingOk, List.forall_mem_cons] at top
      exact ⟨hst, hloc, [], ⟨rfl, top.1⟩, .work ⟨hv, by simp, top.2⟩ rest⟩
  | argument paren callee before after =>
    obtain ⟨hcallee, hbefore, hafter⟩ := top
    have hargs : ∀ w ∈ before ++ [v], t.KnowsValue store.frames w := by
      intro w hw
      rcases List.mem_append.1 hw with hw | hw
      · exact hbefore w hw
      · exact List.mem_singleton.1 hw ▸ hv
    cases after with
    | nil =>
      exact @called t ⟨.value v, ks, registers, store, output⟩ mode callee (before ++ [v]) _ hst
        hloc hcallee hargs rest State.calls_call
    | cons arg args =>
      simp only [List.forall_mem_cons] at hafter
      exact ⟨hst, hloc, [], ⟨rfl, hafter.1⟩, .work ⟨hcallee, hargs, hafter.2⟩ rest⟩
  | property name =>
    simp only [State.valueStep]
    split
    · split
      · rename_i x hx
        exact give x rfl (hst.field hx)
      · exact fail _ rfl
    · exact fail _ rfl
  | logical op rhs =>
    simp only [State.valueStep]
    split
    · exact give v rfl hv
    · exact eval rhs rfl top
    · exact fail _ rfl
  | fieldOwner name value =>
    simp only [State.valueStep]
    split
    · exact ⟨hst, hloc, [], ⟨rfl, top⟩, .work trivial rest⟩
    · exact fail _ rfl
  | fieldValue name owner => exact ⟨hst.setField hv, hloc, [], hv, rest⟩
  | choose yes no =>
    simp only [State.valueStep]
    split_ifs
    · exact eval yes rfl top.1
    · cases no with
      | none => exact give _ rfl (t.knowsValue_datum _)
      | some no => exact eval no rfl (top.2 no rfl)
  | unary op =>
    simp only [State.valueStep]
    cases ha : applyUnary op v with
    | error e => exact fail e rfl
    | ok w => exact give w rfl (by intro f hf; rw [closures_applyUnary ha] at hf; cases hf)
  | discard quiet =>
    simp only [State.valueStep]
    split_ifs
    · exact finished hst hloc rest
    · exact finished hst hloc rest
  | branch yes no =>
    simp only [State.valueStep]
    split_ifs
    · exact ⟨hst, hloc, _, ⟨gain_branch_left yes no, top.1⟩, rest⟩
    · cases no with
      | none => exact finished hst hloc rest
      | some no => exact ⟨hst, hloc, _, ⟨gain_branch_right yes no, top.2 no rfl⟩, rest⟩
  | print => exact finished hst hloc rest
  | ret => exact ⟨hst, hloc, [], hv, rest⟩
  | varDecl name =>
    obtain ⟨layers, hh, hx⟩ := top
    have hlt := hst.frame_lt hh
    obtain ⟨hg, hst', hb⟩ := hst.bind hh hx (hv.mono (t.grows_define hlt name.lexeme v))
    exact ⟨hst', hloc, [name.lexeme], controlOk_bound hb, StackOk.mono hg rest⟩
  | loopCondition cond body =>
    simp only [State.valueStep]
    split_ifs
    · exact ⟨hst, hloc, _, ⟨List.Subset.refl _, top.2⟩, .work top rest⟩
    · exact finished hst hloc rest
  | loopBody cond body => exact hsame
  | sequence after => exact hsame
  | leaveBlock frame => exact top.elim
  | leaveCall registers => exact top.elim

/-! ### Completions and errors -/

/-- A call ends, and its caller goes on at its own place. -/
theorem left {control : Control} {ks : List Pending} {saved : Registers} {caller : SourceUnit}
    {callers : List SourceUnit} {store : Store} {output : List Output} (hst : StoreOk t store)
    (hcallers : t.callers = caller :: callers) (hl : saved.locals = caller.locals)
    (rest : StackOk t store.frames caller saved.frame [] callers ks)
    (hctl : ∀ t' : Trail, t.Grows store.frames t' store.frames →
      ControlOk t' store.frames caller saved.frame [] control) :
    Aligned t.leave ⟨control, ks, saved, store, output⟩ := by
  have ht : t.leave = { t with unit := caller, callers := callers } := by
    simp [Trail.leave, hcallers]
  obtain ⟨hg, hst'⟩ := hst.moved caller callers
  rw [ht]
  exact ⟨hst', hl, [], hctl _ hg, rest.mono hg⟩

theorem doneStep (h : Aligned t s) (mode : Mode) {c : Completion} {k : Pending}
    {ks : List Pending} (hc : s.control = .done c) (hk : s.stack = k :: ks) :
    Aligned (t.step mode s) (State.doneStep { s with stack := ks } c k) := by
  obtain ⟨control, stack, registers, store, output⟩ := s
  obtain ⟨hst, hloc, gain, hctl, hstk⟩ := h
  dsimp only at hc hk hst hloc hctl hstk
  subst hc hk
  have hsame : Aligned t ⟨.done c, k :: ks, registers, store, output⟩ :=
    ⟨hst, hloc, gain, hctl, hstk⟩
  rcases hstk.cons_inv with ⟨top, rest⟩ | ⟨outer, rfl, rest⟩ |
    ⟨saved, caller, callers, rfl, hcallers, hl, rest⟩
  · cases k with
    | loopBody cond body =>
      cases c with
      | next => exact ⟨hst, hloc, [], ⟨rfl, top.1⟩, .work top rest⟩
      | returned v => exact ⟨hst, hloc, [], hctl, rest⟩
    | sequence after =>
      cases c with
      | returned v => exact ⟨hst, hloc, [], hctl, rest⟩
      | next =>
        obtain ⟨layers, names, hn, hh, hs⟩ := top
        cases after with
        | nil => exact finished hst hloc rest
        | cons stmt after =>
          -- what the statement before has bound is settled from here on
          have hh' := hh.settle fun x hx => hctl x (hn hx)
          exact ⟨hst, hloc, _, ⟨List.Subset.refl _, _, hh', hs.head⟩,
            .work ⟨_, _, List.Subset.refl _, hh'.doubt _, hs.tail⟩ rest⟩
    | leaveBlock frame => exact top.elim
    | leaveCall registers => exact top.elim
    | _ => exact hsame
  · cases c with
    | next => exact ⟨hst, hloc, [], controlOk_next _ _ _ _, rest⟩
    | returned v => exact ⟨hst, hloc, [], hctl, rest⟩
  · cases c with
    | next => exact left hst hcallers hl rest fun t' _ => t'.knowsValue_datum _
    | returned v => exact left hst hcallers hl rest fun t' hg => Trail.KnowsValue.mono hg hctl

theorem raiseStep (h : Aligned t s) (mode : Mode) {e : RuntimeError} {k : Pending}
    {ks : List Pending} (hc : s.control = .raise e) (hk : s.stack = k :: ks) :
    Aligned (t.step mode s) (State.raiseStep { s with stack := ks } e k) := by
  obtain ⟨control, stack, registers, store, output⟩ := s
  obtain ⟨hst, hloc, gain, hctl, hstk⟩ := h
  dsimp only at hc hk hst hloc hctl hstk
  subst hc hk
  rcases hstk.cons_inv with ⟨top, rest⟩ | ⟨outer, rfl, rest⟩ |
    ⟨saved, caller, callers, rfl, hcallers, hl, rest⟩
  · cases k with
    | leaveBlock frame => exact top.elim
    | leaveCall registers => exact top.elim
    | _ => exact ⟨hst, hloc, _, trivial, rest⟩
  · exact ⟨hst, hloc, [], trivial, rest⟩
  · exact left hst hcallers hl rest fun _ _ => trivial

/-- Every step keeps the state aligned. -/
theorem step (h : Aligned t s) (mode : Mode) : Aligned (t.step mode s) (s.step mode) := by
  obtain ⟨control, stack, registers, store, output⟩ := s
  cases control with
  | eval e => exact h.evalStep rfl
  | exec stmt => exact h.execStep mode rfl
  | value v =>
    cases stack with
    | nil => exact h
    | cons k ks => exact h.valueStep mode rfl rfl
  | done c =>
    cases stack with
    | nil => exact h
    | cons k ks => exact h.doneStep mode rfl rfl
  | raise e =>
    cases stack with
    | nil => exact h
    | cons k ks => exact h.raiseStep mode rfl rfl

/-- A unit may begin on any store that fits the record. -/
theorem start {store : Store} (hst : StoreOk t store) (u : SourceUnit) :
    Aligned { t with unit := u, callers := [] } (State.start store u.program.stmts u.locals) := by
  obtain ⟨-, hst'⟩ := hst.moved u []
  refine ⟨hst', rfl, [], controlOk_next _ _ _ _, .work ⟨[], [], ?_, rfl, ?_⟩ .empty⟩
  · exact List.Subset.refl _
  · exact ⟨trivial, _, List.Subset.refl _⟩

end Aligned

theorem storeOk_empty (u : SourceUnit) : StoreOk { unit := u } Store.empty := by
  have hl : ∀ f x, Store.empty.frames.lookup f x = none := by
    intro f x
    by_contra h
    obtain ⟨v, hv⟩ := Option.ne_none_iff_exists'.1 h
    rcases Frames.lookup_push hv with hv | ⟨-, hv⟩
    · simp [Frames.lookup, Frames.frame?] at hv
    · simp at hv
  refine ⟨Nat.one_pos, fun h => ?_, fun h => ?_, fun h => ?_, fun h => ?_, fun _ h => ?_⟩
  · cases h
  · cases h
  · rw [hl] at h
    cases h
  · simp [Store.field?, Store.empty] at h
  · rw [hl] at h
    cases h

/-- At every moment of a session scopes and frames are aligned. -/
theorem Moment.aligned {mode : Mode} {us : List SourceUnit} {s : State} {t : Trail}
    (h : Moment mode us s t) : Aligned t s := by
  induction h with
  | first u => exact Aligned.start (storeOk_empty u) u
  | step _ ih => exact ih.step mode
  | next _ _ u ih => exact Aligned.start ih.store u

end Wandika
