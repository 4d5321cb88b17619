import Wandika.Proofs.Machine.Extent
import Wandika.Proofs.Machine.Trail

/-!
# What a step does to the stack

A step puts work on the stack, takes work from it, or lets other work take its place; marks are put
there by blocks and calls only.

* `Control.awaits?`: what the work at hand evaluates first, and the work that waits for the value;
* `State.Move`: how a step changes the stack and the registers;
* `State.move_step`: no step changes them in another way;
* `State.exists_origin`: work that sees an outcome was put on the stack when the code began that has
  this outcome.
-/

namespace Wandika

/-- Whether work that waits restores registers. -/
def Pending.isMark : Pending → Bool
  | .leaveBlock _ | .leaveCall _ => true
  | _ => false

/-- Whether work takes the place of other work, whose value or completion it has seen. -/
def Pending.isLater : Pending → Bool
  | .binary _ _ | .argument _ _ _ _ | .fieldValue _ _ | .loopCondition _ _ | .loopBody _ _
  | .sequence _ => true
  | _ => false

theorem Pending.isMark_of_isLater {k : Pending} (h : k.isLater = true) : k.isMark = false := by
  cases k with
  | leaveBlock | leaveCall => cases h
  | _ => rfl

/-- The expression that the work at hand evaluates first, and the work that waits for its value. -/
def Control.awaits? : Control → Option (Expr × Pending)
  | .eval (.assign id name rhs) => some (rhs, .assign id name)
  | .eval (.binary op lhs rhs) => some (lhs, .rightOperand op rhs)
  | .eval (.call callee paren args) => some (callee, .callee paren args)
  | .eval (.get object name) => some (object, .property name)
  | .eval (.logical op lhs rhs) => some (lhs, .logical op rhs)
  | .eval (.set object name rhs) => some (object, .fieldOwner name rhs)
  | .eval (.ternary cond _ yes no) => some (cond, .choose yes no)
  | .eval (.unary op operand) => some (operand, .unary op)
  | .exec (.expr e) => some (e, .discard (State.isQuiet e))
  | .exec (.branch cond yes no) => some (cond, .branch yes no)
  | .exec (.print e) => some (e, .print)
  | .exec (.ret _ (some e)) => some (e, .ret)
  | .exec (.varDecl name (some init)) => some (init, .varDecl name)
  | .exec (.loop cond body) => some (cond, .loopCondition cond body)
  | _ => none

/-- No mark waits for the value of an expression. -/
theorem Control.isMark_of_awaits? {c : Control} {e : Expr} {k : Pending}
    (h : c.awaits? = some (e, k)) : k.isMark = false := by
  unfold Control.awaits? at h
  split at h <;> cases h <;> rfl

/-- What is evaluated first is no outcome yet. -/
theorem Control.isOutcome_of_awaits? {c : Control} {e : Expr} {k : Pending}
    (h : c.awaits? = some (e, k)) : c.isOutcome = false := by
  cases c with
  | eval | exec => rfl
  | value | done | raise => cases h

namespace State

variable {mode : Mode} {s t : State}

theorem step_of_awaits? {e : Expr} {k : Pending} (h : s.control.awaits? = some (e, k)) :
    s.step mode = s.push (.eval e) k := by
  obtain ⟨control, stack, registers, store, output⟩ := s
  dsimp only at h
  unfold Control.awaits? at h
  split at h <;> cases h <;> rfl

/-- How a step changes the stack and the registers. -/
inductive Move (mode : Mode) (s t : State) : Prop
  | rests (same : t = s)
  | goes (control : s.control.isOutcome = false) (stack : t.stack = s.stack)
      (registers : t.registers = s.registers)
  | pushes (e : Expr) (k : Pending) (awaits : s.control.awaits? = some (e, k))
      (push : t = s.push (.eval e) k)
  | drops (k : Pending) (stack : s.stack = k :: t.stack) (work : k.isMark = false)
      (registers : t.registers = s.registers)
  | replaces (k k' : Pending) (ks : List Pending) (before : s.stack = k :: ks)
      (after : t.stack = k' :: ks) (work : k.isMark = false) (later : k'.isLater = true)
      (registers : t.registers = s.registers)
  | opens (body : List Stmt) (control : s.control.isOutcome = false)
      (stack : t.stack = .sequence body :: .leaveBlock s.registers.frame :: s.stack)
      (registers : t.registers = { s.registers with frame := s.store.frames.size })
      (size : t.store.frames.size = s.store.frames.size + 1)
  | enters (k : Pending) (ks : List Pending) (f : Closure) (before : s.stack = k :: ks)
      (work : k.isMark = false)
      (after : t.stack = .sequence f.decl.body :: .leaveCall s.registers :: ks)
      (registers : t.registers = ⟨s.store.frames.size, f.locals, s.registers.depth + 1⟩)
      (size : t.store.frames.size = s.store.frames.size + 1) (limit : s.atLimit mode = false)
  | leavesBlock (frame : FrameId) (stack : s.stack = .leaveBlock frame :: t.stack)
      (registers : t.registers = { s.registers with frame })
  | leavesCall (stack : s.stack = .leaveCall t.registers :: t.stack)

theorem move_evalStep (e : Expr) (h : s.control = .eval e) : Move mode s (s.evalStep e) := by
  have hstep : ∀ e' k, s.control.awaits? = some (e', k) → Move mode s (s.push (.eval e') k) :=
    fun e' k hk => .pushes e' k hk rfl
  have hgoes : s.control.isOutcome = false := by rw [h]; rfl
  rw [h] at hstep
  cases e with
  | group inner => exact .goes hgoes rfl rfl
  | literal value => cases value <;> exact .goes hgoes rfl rfl
  | «variable» id name =>
    simp only [evalStep]
    cases s.valueOf? id name <;> exact .goes hgoes rfl rfl
  | _ => exact hstep _ _ rfl

theorem move_execStep (x : Stmt) (h : s.control = .exec x) : Move mode s (s.execStep x) := by
  have hstep : ∀ e' k, s.control.awaits? = some (e', k) → Move mode s (s.push (.eval e') k) :=
    fun e' k hk => .pushes e' k hk rfl
  have hgoes : s.control.isOutcome = false := by rw [h]; rfl
  rw [h] at hstep
  cases x with
  | block body => exact .opens body hgoes rfl rfl (Frames.size_push _ _)
  | classDecl | function => exact .goes hgoes rfl rfl
  | ret keyword value =>
    cases value with
    | none => exact .goes hgoes rfl rfl
    | some value => exact hstep _ _ rfl
  | varDecl name init =>
    cases init with
    | none => exact .goes hgoes rfl rfl
    | some init => exact hstep _ _ rfl
  | _ => exact hstep _ _ rfl

section Outcomes

variable {control : Control} {k : Pending} {ks : List Pending} {registers : Registers}
  {store : Store} {output : List Output}

theorem move_yield (hk : k.isMark = false) (x : Except RuntimeError Value) :
    Move mode ⟨control, k :: ks, registers, store, output⟩
      (State.yield ⟨control, ks, registers, store, output⟩ x) := by
  cases x <;> exact .drops k rfl hk rfl

theorem move_call (hk : k.isMark = false) (paren : Option Token) (callee : Value)
    (args : List Value) :
    Move mode ⟨control, k :: ks, registers, store, output⟩
      (State.call mode ⟨control, ks, registers, store, output⟩ paren callee args) := by
  have hcall : Calls mode ⟨control, ks, registers, store, output⟩ callee args
    (State.call mode ⟨control, ks, registers, store, output⟩ paren callee args) := calls_call
  generalize State.call mode ⟨control, ks, registers, store, output⟩ paren callee args = t
    at hcall ⊢
  cases hcall with
  | @runs f mem arity target =>
    refine .enters k ks f rfl hk rfl rfl (Frames.size_push _ _) ?_
    unfold target? at target
    split_ifs at target with hlimit
    exact Bool.eq_false_iff.2 hlimit
  | makes => exact .drops k rfl hk rfl
  | fails => exact .drops k rfl hk rfl

theorem move_valueStep (v : Value) :
    Move mode ⟨.value v, k :: ks, registers, store, output⟩
      (State.valueStep mode ⟨.value v, ks, registers, store, output⟩ v k) := by
  cases k with
  | assign id name =>
    simp only [valueStep]
    split <;> exact .drops _ rfl rfl rfl
  | rightOperand op rhs => exact .replaces _ (.binary op v) ks rfl rfl rfl rfl rfl
  | binary op lhs => exact move_yield rfl _
  | callee paren args =>
    cases args with
    | nil => exact move_call rfl paren v []
    | cons arg args => exact .replaces _ (.argument paren v [] args) ks rfl rfl rfl rfl rfl
  | argument paren callee before after =>
    cases after with
    | nil => exact move_call rfl paren callee (before ++ [v])
    | cons arg args =>
      exact .replaces _ (.argument paren callee (before ++ [v]) args) ks rfl rfl rfl rfl rfl
  | property name =>
    simp only [valueStep]
    split
    · split <;> exact .drops _ rfl rfl rfl
    · exact .drops _ rfl rfl rfl
  | logical op rhs =>
    simp only [valueStep]
    split <;> exact .drops _ rfl rfl rfl
  | fieldOwner name value =>
    simp only [valueStep]
    split
    · rename_i o
      exact .replaces _ (.fieldValue name o) ks rfl rfl rfl rfl rfl
    · exact .drops _ rfl rfl rfl
  | choose yes no =>
    simp only [valueStep]
    cases no <;> split_ifs <;> exact .drops _ rfl rfl rfl
  | unary op => exact move_yield rfl _
  | discard quiet =>
    simp only [valueStep]
    split_ifs <;> exact .drops _ rfl rfl rfl
  | branch yes no =>
    simp only [valueStep]
    cases no <;> split_ifs <;> exact .drops _ rfl rfl rfl
  | loopCondition cond body =>
    simp only [valueStep]
    split_ifs
    · exact .replaces _ (.loopBody cond body) ks rfl rfl rfl rfl rfl
    · exact .drops _ rfl rfl rfl
  | fieldValue | print | ret | varDecl => exact .drops _ rfl rfl rfl
  | loopBody | sequence | leaveBlock | leaveCall => exact .rests rfl

theorem move_doneStep (c : Completion) :
    Move mode ⟨.done c, k :: ks, registers, store, output⟩
      (State.doneStep ⟨.done c, ks, registers, store, output⟩ c k) := by
  cases k with
  | loopBody cond body =>
    cases c with
    | next => exact .replaces _ (.loopCondition cond body) ks rfl rfl rfl rfl rfl
    | returned v => exact .drops _ rfl rfl rfl
  | sequence rest =>
    cases c with
    | next =>
      cases rest with
      | nil => exact .drops _ rfl rfl rfl
      | cons x rest => exact .replaces _ (.sequence rest) ks rfl rfl rfl rfl rfl
    | returned v => cases rest <;> exact .drops _ rfl rfl rfl
  | leaveBlock frame => exact .leavesBlock frame rfl rfl
  | leaveCall saved => cases c <;> exact .leavesCall rfl
  | _ => exact .rests rfl

theorem move_raiseStep (e : RuntimeError) :
    Move mode ⟨.raise e, k :: ks, registers, store, output⟩
      (State.raiseStep ⟨.raise e, ks, registers, store, output⟩ e k) := by
  cases k with
  | leaveBlock frame => exact .leavesBlock frame rfl rfl
  | leaveCall saved => exact .leavesCall rfl
  | _ => exact .drops _ rfl rfl rfl

end Outcomes

/-- What a step does to the stack and the registers. -/
theorem move_step (mode : Mode) (s : State) : Move mode s (s.step mode) := by
  obtain ⟨control, stack, registers, store, output⟩ := s
  cases control with
  | eval e => exact move_evalStep e rfl
  | exec x => exact move_execStep x rfl
  | value v =>
    cases stack with
    | nil => exact .rests rfl
    | cons k ks => exact move_valueStep v
  | done c =>
    cases stack with
    | nil => exact .rests rfl
    | cons k ks => exact move_doneStep c
  | raise e =>
    cases stack with
    | nil => exact .rests rfl
    | cons k ks => exact move_raiseStep e

/-! ### Where waiting work comes from -/

section Origins

variable {k : Pending} {ks : List Pending} {n : Nat}

/-- Work that is no mark and takes the place of no other work is put on the stack in one way
only. -/
theorem Move.awaits_of_suffix (h : Move mode s t) (hmark : k.isMark = false)
    (hlater : k.isLater = false) (hold : ¬ k :: ks <:+ s.stack) (hnew : k :: ks <:+ t.stack) :
    ∃ e, s.control.awaits? = some (e, k) ∧ s.stack = ks := by
  cases h with
  | rests same => exact absurd (same ▸ hnew) hold
  | goes control stack registers => exact absurd (stack ▸ hnew) hold
  | pushes e k' awaits push =>
    subst push
    rcases List.suffix_cons_iff.1 hnew with heq | hsuffix
    · cases heq
      exact ⟨e, awaits, rfl⟩
    · exact absurd hsuffix hold
  | drops k' stack work registers =>
    exact absurd (stack ▸ hnew.trans (List.suffix_cons k' _)) hold
  | replaces k' later ks' before after work hk registers =>
    rw [after] at hnew
    rcases List.suffix_cons_iff.1 hnew with heq | hsuffix
    · cases heq
      cases hlater.symm.trans hk
    · exact absurd (before ▸ hsuffix.trans (List.suffix_cons k' ks')) hold
  | opens body control stack registers size =>
    rw [stack] at hnew
    rcases List.suffix_cons_iff.1 hnew with heq | hsuffix
    · cases heq
      cases hlater
    · rcases List.suffix_cons_iff.1 hsuffix with heq | hsuffix
      · cases heq
        cases hmark
      · exact absurd hsuffix hold
  | enters k' ks' f before work after registers size limit =>
    rw [after] at hnew
    rcases List.suffix_cons_iff.1 hnew with heq | hsuffix
    · cases heq
      cases hlater
    · rcases List.suffix_cons_iff.1 hsuffix with heq | hsuffix
      · cases heq
        cases hmark
      · exact absurd (before ▸ hsuffix.trans (List.suffix_cons k' ks')) hold
  | leavesBlock frame stack registers =>
    exact absurd (stack ▸ hnew.trans (List.suffix_cons _ _)) hold
  | leavesCall stack => exact absurd (stack ▸ hnew.trans (List.suffix_cons _ _)) hold

/-- Such work leaves the stack when it has seen an outcome, unless the machine is stuck. -/
theorem Move.not_suffix_of_outcome (h : Move mode s t) (hmark : k.isMark = false)
    (hlater : k.isLater = false) (houtcome : s.control.isOutcome = true)
    (hstack : s.stack = k :: ks) : t = s ∨ ¬ k :: ks <:+ t.stack := by
  have hshort : ¬ k :: ks <:+ ks := fun hsuffix => by
    have := hsuffix.length_le
    simp at this
  cases h with
  | rests same => exact Or.inl same
  | goes control stack registers => cases control.symm.trans houtcome
  | pushes e k' awaits push =>
    cases (Control.isOutcome_of_awaits? awaits).symm.trans houtcome
  | drops k' stack work registers =>
    cases hstack.symm.trans stack
    exact Or.inr hshort
  | replaces k' later ks' before after work hk registers =>
    cases hstack.symm.trans before
    refine Or.inr fun hsuffix => ?_
    rw [after] at hsuffix
    rcases List.suffix_cons_iff.1 hsuffix with heq | hsuffix
    · cases heq
      cases hlater.symm.trans hk
    · exact hshort hsuffix
  | opens body control stack registers size => cases control.symm.trans houtcome
  | enters k' ks' f before work after registers size limit =>
    cases hstack.symm.trans before
    refine Or.inr fun hsuffix => ?_
    rw [after] at hsuffix
    rcases List.suffix_cons_iff.1 hsuffix with heq | hsuffix
    · cases heq
    · rcases List.suffix_cons_iff.1 hsuffix with heq | hsuffix
      · cases heq
        cases hmark
      · exact hshort hsuffix
  | leavesBlock frame stack registers =>
    cases hstack.symm.trans stack
    cases hmark
  | leavesCall stack =>
    cases hstack.symm.trans stack
    cases hmark

/-- Such work that is on the stack, but was not at first, was put there and has stayed since. -/
theorem exists_awaits (hmark : k.isMark = false) (hlater : k.isLater = false)
    (hold : ¬ k :: ks <:+ s.stack) (hnew : k :: ks <:+ ((step mode)^[n] s).stack) :
    ∃ m < n, ∃ e, ((step mode)^[m] s).control.awaits? = some (e, k) ∧
      ((step mode)^[m] s).stack = ks ∧
      ∀ j, m < j → j ≤ n → k :: ks <:+ ((step mode)^[j] s).stack := by
  induction n with
  | zero => exact absurd hnew hold
  | succ n ih =>
    by_cases hbefore : k :: ks <:+ ((step mode)^[n] s).stack
    · obtain ⟨m, hm, e, hawaits, hstack, hstays⟩ := ih hbefore
      refine ⟨m, Nat.lt_succ_of_lt hm, e, hawaits, hstack, fun j hmj hj => ?_⟩
      rcases Nat.le_succ_iff.1 hj with hj | rfl
      · exact hstays j hmj hj
      · exact hnew
    · have hmove := move_step mode ((step mode)^[n] s)
      rw [← Function.iterate_succ_apply' (step mode)] at hmove
      obtain ⟨e, hawaits, hstack⟩ := hmove.awaits_of_suffix hmark hlater hbefore hnew
      refine ⟨n, Nat.lt_succ_self n, e, hawaits, hstack, fun j hnj hj => ?_⟩
      rwa [Nat.le_antisymm hj hnj]

/-- No such work waits when a program begins. -/
theorem not_suffix_start (hlater : k.isLater = false) (store : Store) (stmts : List Stmt)
    (locals : Locals) : ¬ k :: ks <:+ (start store stmts locals).stack := by
  intro hsuffix
  rcases List.suffix_cons_iff.1 hsuffix with heq | hsuffix
  · cases heq
    cases hlater
  · simp at hsuffix

/-- An outcome that such work is about to see is the outcome of the code for which the work was put
on the stack. -/
theorem exists_origin (hmark : k.isMark = false) (hlater : k.isLater = false)
    (hold : ¬ k :: ks <:+ s.stack) (hstack : ((step mode)^[n] s).stack = k :: ks)
    (houtcome : ((step mode)^[n] s).control.isOutcome = true) :
    ∃ m < n, ∃ e j, ((step mode)^[m] s).control.awaits? = some (e, k) ∧
      ((step mode)^[m + 1] s).Finishes mode j ((step mode)^[n] s) := by
  have hsuffix : k :: ks <:+ ((step mode)^[n] s).stack := hstack ▸ List.suffix_refl _
  obtain ⟨m, hm, e, hawaits, hbelow, hstays⟩ := exists_awaits hmark hlater hold hsuffix
  have hpush : ((step mode)^[m + 1] s).stack = k :: ks := by
    rw [Function.iterate_succ_apply', step_of_awaits? hawaits, ← hbelow]
    rfl
  have hshift : ∀ j, (step mode)^[j] ((step mode)^[m + 1] s) = (step mode)^[j + (m + 1)] s :=
    fun j => (Function.iterate_add_apply (step mode) j (m + 1) s).symm
  have hend : (step mode)^[n - (m + 1)] ((step mode)^[m + 1] s) = (step mode)^[n] s := by
    rw [hshift, Nat.sub_add_cancel hm]
  obtain ⟨j, hj, hfinishes⟩ := exists_finishes_of_outcome (hend ▸ houtcome)
    (by rw [hend, hstack, hpush])
  -- from the first such outcome on the machine is stuck, or the work would have left the stack
  have hsame : (step mode)^[j] ((step mode)^[m + 1] s) = (step mode)^[n] s := by
    rcases Nat.eq_or_lt_of_le hj with rfl | hlt
    · exact hend
    · have hmove := move_step mode ((step mode)^[j] ((step mode)^[m + 1] s))
      have hstack' := hfinishes.stack.trans hpush
      rcases hmove.not_suffix_of_outcome hmark hlater hfinishes.outcome hstack' with hfixed | hgone
      · rw [← hend]
        conv_rhs => rw [← Nat.sub_add_cancel hj, Function.iterate_add_apply]
        exact (Function.iterate_fixed hfixed _).symm
      · refine absurd (hstays (j + 1 + (m + 1)) (by omega) (by omega)) ?_
        rwa [← hshift, Function.iterate_succ_apply']
  exact ⟨m, hm, e, j, hawaits, hsame ▸ hfinishes⟩

end Origins

end State

end Wandika
