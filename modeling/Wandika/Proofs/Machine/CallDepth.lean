import Wandika.Proofs.Machine.Raising
import Wandika.Proofs.Machine.Registers

/-!
# The limit on nested calls

The machine with a limit on nested calls is compared with the same machine without one.

* `State.calls`: the calls in progress; `State.attempt?`: the call that the next step begins;
* `State.step_unlimited`, `State.step_overflow`: the limit is met by an attempt at the limit only;
* `State.Passes`: the moments of a run, with those at which a class is being called;
* `State.Counted`: the number of calls is kept right, and does not pass the limit;
* `State.overflows_step_unlimited`: without a limit no stack overflow is raised;
* `call_limit_exact`: the limit has no other effect than to stop the first call beyond it.
-/

namespace Wandika

/-- The same mode without a limit on nested calls. -/
def Mode.unlimited (mode : Mode) : Mode :=
  { mode with maxDepth := none }

/-- A call whose callee and arguments have been evaluated. -/
structure Call where
  paren : Option Token
  callee : Value
  args : List Value

/-- Whether the callee takes as many arguments. -/
def Call.accepted (c : Call) : Bool :=
  match c.callee with
  | .overloads o => (o.select? c.args.length).isSome
  | .function f => c.args.length = f.arity
  | .datum (.cls _) => c.args.length = 0
  | _ => false

/-- The call that is ready when its last value is handed to the work that waits for it. -/
def Pending.call? (v : Value) : Pending → Option Call
  | .callee paren [] => some ⟨paren, v, []⟩
  | .argument paren f before [] => some ⟨paren, f, before ++ [v]⟩
  | _ => none

/-- Whether work that waits is the end of a call. -/
def Pending.isCall : Pending → Bool
  | .leaveCall _ => true
  | _ => false

namespace State

/-- The number of calls in progress: those whose end waits on the stack. -/
def calls (s : State) : Nat :=
  s.stack.countP Pending.isCall

/-- The call that the next step attempts: callee and arguments have been evaluated, and the number
of arguments is accepted. -/
def attempt? (s : State) : Option Call :=
  match s.control, s.stack with
  | .value v, k :: _ => (k.call? v).filter Call.accepted
  | _, _ => none

/-! ### What the limit does -/

section Limit

variable {mode : Mode} {s : State} {c : Call}

theorem call_unlimited (h : c.accepted = false ∨ s.atLimit mode = false) :
    s.call mode c.paren c.callee c.args = s.call mode.unlimited c.paren c.callee c.args := by
  have hfree : s.atLimit mode.unlimited = false := rfl
  obtain ⟨paren, callee, args⟩ := c
  cases callee with
  | datum d =>
    cases d with
    | cls cls =>
      simp only [call, construct, hfree]
      by_cases hzero : args.length = 0
      · have hlimit : s.atLimit mode = false := h.resolve_left (by simp [Call.accepted, hzero])
        simp [hlimit, hzero]
      · simp [hzero]
    | _ => rfl
  | function f =>
    simp only [call, enter, hfree]
    by_cases harity : args.length = f.arity
    · have hlimit : s.atLimit mode = false := h.resolve_left (by simp [Call.accepted, harity])
      simp [hlimit, harity]
    · simp [harity]
  | overloads o =>
    simp only [call, enter, hfree]
    cases hselect : o.select? args.length with
    | none => rfl
    | some f =>
      have hlimit : s.atLimit mode = false := h.resolve_left (by simp [Call.accepted, hselect])
      simp [hlimit]

theorem call_overflow (hc : c.accepted = true) (hl : s.atLimit mode = true) :
    s.call mode c.paren c.callee c.args = s.fail c.paren .stackOverflow := by
  obtain ⟨paren, callee, args⟩ := c
  cases callee with
  | datum d =>
    cases d with
    | cls cls =>
      have hzero : args.length = 0 := by simpa [Call.accepted] using hc
      simp [call, construct, hl, hzero]
    | _ => cases hc
  | function f =>
    have harity : args.length = f.arity := by simpa [Call.accepted] using hc
    simp [call, enter, hl, harity]
  | overloads o =>
    have hsome : (o.select? args.length).isSome = true := hc
    obtain ⟨f, hselect⟩ := Option.isSome_iff_exists.1 hsome
    simp [call, enter, hl, hselect]

theorem valueStep_of_call? {v : Value} {k : Pending} (h : k.call? v = some c) :
    s.valueStep mode v k = s.call mode c.paren c.callee c.args := by
  cases k with
  | callee paren args =>
    cases args with
    | nil =>
      cases h
      rfl
    | cons arg args => cases h
  | argument paren callee before after =>
    cases after with
    | nil =>
      cases h
      rfl
    | cons arg args => cases h
  | _ => cases h

theorem valueStep_unlimited {v : Value} {k : Pending} (h : k.call? v = none) :
    s.valueStep mode v k = s.valueStep mode.unlimited v k := by
  cases k with
  | callee paren args =>
    cases args with
    | nil => cases h
    | cons arg args => rfl
  | argument paren callee before after =>
    cases after with
    | nil => cases h
    | cons arg args => rfl
  | _ => rfl

/-- The limit makes no difference to a step that begins no call, or begins one below the limit. -/
theorem step_unlimited (h : s.attempt? = none ∨ s.atLimit mode = false) :
    s.step mode = s.step mode.unlimited := by
  obtain ⟨control, stack, registers, store, output⟩ := s
  cases control with
  | value v =>
    cases stack with
    | nil => rfl
    | cons k ks =>
      let popped : State := ⟨.value v, ks, registers, store, output⟩
      show popped.valueStep mode v k = popped.valueStep mode.unlimited v k
      cases hk : k.call? v with
      | none => exact valueStep_unlimited hk
      | some c =>
        rw [valueStep_of_call? hk, valueStep_of_call? hk]
        refine call_unlimited (h.imp_left fun hnone => ?_)
        simpa [attempt?, hk, Option.filter] using hnone
  | eval e => rfl
  | exec x => rfl
  | done x => cases stack <;> rfl
  | raise e => cases stack <;> rfl

/-- A call that is attempted at the limit fails at its closing parenthesis. -/
theorem step_overflow (ha : s.attempt? = some c) (hl : s.atLimit mode = true) :
    (s.step mode).control = .raise ⟨c.paren, .stackOverflow⟩ ∧
      (s.step mode).output = s.output := by
  obtain ⟨control, stack, registers, store, output⟩ := s
  cases control with
  | value v =>
    cases stack with
    | nil => cases ha
    | cons k ks =>
      let popped : State := ⟨.value v, ks, registers, store, output⟩
      obtain ⟨hk, hc⟩ := Option.filter_eq_some_iff.1 ha
      have hstep : State.step mode ⟨.value v, k :: ks, registers, store, output⟩ =
          popped.fail c.paren .stackOverflow :=
        (valueStep_of_call? hk).trans (call_overflow hc hl)
      rw [hstep]
      exact ⟨rfl, rfl⟩
  | _ => cases ha

end Limit

/-! ### Moments -/

/-- A class is being called: its object is made, and the end of the call waits. -/
def constructing (s : State) (cls : Class) : State :=
  { s with
    control := .done (.returned (.object (s.store.newObject cls).1))
    stack := .leaveCall s.registers :: s.stack.tail
    registers := { s.registers with depth := s.registers.depth + 1 }
    store := (s.store.newObject cls).2 }

/-- A step that makes an object is a call that begins and ends at once. -/
theorem step_constructing {mode : Mode} {s : State} {c : Call} {cls : Class}
    (ha : s.attempt? = some c) (hc : c.callee = .datum (.cls cls)) (hl : s.atLimit mode = false) :
    (s.constructing cls).step mode = s.step mode := by
  obtain ⟨control, stack, registers, store, output⟩ := s
  obtain ⟨paren, callee, args⟩ := c
  obtain rfl : callee = .datum (.cls cls) := hc
  cases control with
  | value v =>
    cases stack with
    | nil => cases ha
    | cons k ks =>
      let popped : State := ⟨.value v, ks, registers, store, output⟩
      obtain ⟨hk, hacc⟩ := Option.filter_eq_some_iff.1 ha
      have hzero : args.length = 0 := by simpa [Call.accepted] using hacc
      have hlimit : popped.atLimit mode = false := hl
      have hstep : State.step mode ⟨.value v, k :: ks, registers, store, output⟩ =
          popped.call mode paren (.datum (.cls cls)) args :=
        valueStep_of_call? hk
      rw [hstep]
      simp [call, construct, hzero, hlimit, popped, constructing, step, doneStep]
  | _ => cases ha

/-- The moments of a run: its states, and the moments within a step at which a class is being
called. -/
inductive Passes (mode : Mode) (s : State) : State → Prop
  | state (n : Nat) : Passes mode s ((step mode)^[n] s)
  | constructing (n : Nat) {c : Call} {cls : Class} (ha : ((step mode)^[n] s).attempt? = some c)
      (hc : c.callee = .datum (.cls cls)) (hl : ((step mode)^[n] s).atLimit mode = false) :
      Passes mode s (((step mode)^[n] s).constructing cls)

/-! ### Counting -/

/-- Every mark of a call restores the number of calls that are marked below it. -/
def Nested : Nat → List Pending → Prop
  | depth, [] => depth = 0
  | depth, .leaveCall registers :: ks => depth = registers.depth + 1 ∧ Nested registers.depth ks
  | depth, _ :: ks => Nested depth ks

theorem Nested.eq_countP {depth : Nat} {ks : List Pending} (h : Nested depth ks) :
    depth = ks.countP Pending.isCall := by
  induction ks generalizing depth with
  | nil => exact h
  | cons k ks ih =>
    cases k with
    | leaveCall registers =>
      obtain ⟨rfl, h⟩ := h
      rw [List.countP_cons_of_pos rfl, ← ih h]
    | _ =>
      rw [List.countP_cons_of_neg (by simp [Pending.isCall])]
      exact ih h

theorem calls_eq (s : State) : s.calls = s.marks.countP Pending.isCall := by
  rw [calls, marks, List.countP_filter]
  refine List.countP_congr fun k _ => ?_
  cases k <;> simp [Pending.isCall, Pending.isMark]

/-- The register holds the number of calls in progress, which does not pass the limit. -/
structure Counted (mode : Mode) (s : State) : Prop where
  nested : Nested s.registers.depth s.marks
  le : ∀ limit, mode.maxDepth = some limit → s.calls ≤ limit

section Counted

variable {mode : Mode} {s t : State}

theorem Counted.depth_eq (h : s.Counted mode) : s.registers.depth = s.calls := by
  rw [calls_eq, h.nested.eq_countP]

/-- One more call fits in below the limit. -/
theorem Counted.succ_le (h : s.Counted mode) (hl : s.atLimit mode = false) {limit : Nat}
    (hm : mode.maxDepth = some limit) : s.calls + 1 ≤ limit := by
  rw [atLimit, hm, decide_eq_false_iff_not] at hl
  rw [← h.depth_eq]
  omega

theorem Counted.shift (h : s.Counted mode) (hs : Shift mode s t) : t.Counted mode := by
  obtain ⟨nested, le⟩ := h
  have hle := le
  simp only [calls_eq] at le
  cases hs with
  | works marks registers =>
    refine ⟨by rwa [marks, registers], fun limit hm => ?_⟩
    rw [calls_eq, marks]
    exact le limit hm
  | opens frame marks registers =>
    refine ⟨by rwa [marks, registers], fun limit hm => ?_⟩
    rw [calls_eq, marks, List.countP_cons_of_neg (by simp [Pending.isCall])]
    exact le limit hm
  | enters frame locals marks registers limit =>
    refine ⟨by rw [marks, registers]; exact ⟨rfl, nested⟩, fun limit hm => ?_⟩
    rw [calls_eq, marks, List.countP_cons_of_pos rfl, ← calls_eq]
    exact Counted.succ_le ⟨nested, hle⟩ (by assumption) hm
  | leavesBlock frame marks registers =>
    rw [marks] at nested le
    refine ⟨by rwa [registers], fun limit hm => ?_⟩
    rw [List.countP_cons_of_neg (by simp [Pending.isCall])] at le
    rw [calls_eq]
    exact le limit hm
  | leavesCall marks =>
    rw [marks] at nested le
    refine ⟨nested.2, fun limit hm => ?_⟩
    have hbelow := le limit hm
    rw [List.countP_cons_of_pos rfl] at hbelow
    rw [calls_eq]
    omega

theorem Counted.iterate (h : s.Counted mode) (n : Nat) : ((step mode)^[n] s).Counted mode := by
  induction n with
  | zero => exact h
  | succ n ih =>
    rw [Function.iterate_succ_apply']
    exact ih.shift (shift_step mode _)

theorem counted_start (mode : Mode) (store : Store) (stmts : List Stmt) (locals : Locals) :
    (start store stmts locals).Counted mode :=
  ⟨rfl, fun limit _ => Nat.zero_le limit⟩

theorem shift_constructing {c : Call} {cls : Class} (ha : s.attempt? = some c)
    (hl : s.atLimit mode = false) : Shift mode s (s.constructing cls) := by
  refine .enters s.registers.frame s.registers.locals ?_ rfl hl
  obtain ⟨control, stack, registers, store, output⟩ := s
  cases control with
  | value v =>
    cases stack with
    | nil => cases ha
    | cons k ks =>
      obtain ⟨hk, -⟩ := Option.filter_eq_some_iff.1 ha
      cases k with
      | callee | argument => rfl
      | _ => cases hk
  | _ => cases ha

theorem Counted.passes (h : s.Counted mode) (hs : s.Passes mode t) : t.Counted mode := by
  cases hs with
  | state n => exact h.iterate n
  | constructing n ha hc hl => exact (h.iterate n).shift (shift_constructing ha hl)

end Counted

end State

/-! ### Where stack overflows come from -/

/-- Whether the control is an error about too many nested calls. -/
def Control.overflows : Control → Bool
  | .raise e => e.cause = .stackOverflow
  | _ => false

/-- No other error has the wording of a stack overflow. -/
theorem RuntimeCause.message_eq_iff {cause : RuntimeCause} :
    cause.message = "Stack overflow." ↔ cause = .stackOverflow := by
  constructor
  · intro h
    -- the other wordings begin with another letter
    have hhead : cause.message.toList.head? = some 'S' := by
      rw [h]
      rfl
    cases cause with
    | stackOverflow => rfl
    | _ =>
      delta RuntimeCause.message at hhead
      dsimp only at hhead
      simp [String.toList_append] at hhead
  · rintro rfl
    rfl

section Operators

variable {op : Token} {a b : Value} {x y : Float} {e : RuntimeError}

theorem cause_of_arithmetic (h : arithmetic op x y = .error e) : e.cause ≠ .stackOverflow := by
  unfold arithmetic at h
  split at h
  · cases h
  · cases h
  · split_ifs at h
    cases h
    simp
  · split_ifs at h
    cases h
    simp
  · cases h
  · cases h
    simp

theorem cause_of_numbers (h : numbers op a b = .error e) : e.cause ≠ .stackOverflow := by
  unfold numbers at h
  split at h
  · cases h
  · cases h
    simp
  · cases h
    simp

theorem cause_of_binary (h : applyBinary op a b = .error e) : e.cause ≠ .stackOverflow := by
  unfold applyBinary at h
  split at h
  case h_8 =>
    cases hn : numbers op a b with
    | error e' =>
      rw [hn] at h
      cases h
      exact cause_of_numbers hn
    | ok xy =>
      rw [hn] at h
      exact cause_of_arithmetic h
  all_goals cases h

theorem cause_of_unary (h : applyUnary op a = .error e) : e.cause ≠ .stackOverflow := by
  unfold applyUnary at h
  split at h
  · cases h
  · split at h
    · cases h
    · cases h
      simp
  · cases h
    simp

theorem cause_of_decides (h : decides op a = .error e) : e.cause ≠ .stackOverflow := by
  unfold decides at h
  split at h
  · cases h
  · cases h
  · cases h
    simp

end Operators

namespace State

variable {mode : Mode} {s : State}

theorem overflows_yield {x : Except RuntimeError Value}
    (hx : ∀ e, x = .error e → e.cause ≠ .stackOverflow) :
    (s.yield x).control.overflows = false := by
  cases x with
  | ok v => rfl
  | error e => exact decide_eq_false (hx e rfl)

theorem overflows_call (paren : Option Token) (callee : Value) (args : List Value) :
    (s.call mode.unlimited paren callee args).control.overflows = false := by
  cases callee with
  | datum d =>
    cases d with
    | cls cls =>
      simp only [call]
      split_ifs <;> rfl
    | _ => rfl
  | function f =>
    simp only [call]
    split_ifs <;> rfl
  | overloads o =>
    simp only [call]
    split <;> rfl

theorem overflows_valueStep (v : Value) (k : Pending) :
    (s.valueStep mode.unlimited v k).control.overflows = false := by
  cases k with
  | assign id name =>
    simp only [valueStep]
    split <;> rfl
  | binary op lhs => exact overflows_yield fun e => cause_of_binary
  | callee paren args =>
    cases args with
    | nil => exact overflows_call paren v []
    | cons arg args => rfl
  | argument paren callee before after =>
    cases after with
    | nil => exact overflows_call paren callee (before ++ [v])
    | cons arg args => rfl
  | property name =>
    simp only [valueStep]
    split
    · split <;> rfl
    · rfl
  | logical op rhs =>
    simp only [valueStep]
    split
    · rfl
    · rfl
    · rename_i e he
      exact decide_eq_false (cause_of_decides he)
  | fieldOwner name value =>
    simp only [valueStep]
    split <;> rfl
  | choose yes no =>
    simp only [valueStep]
    cases no <;> split_ifs <;> rfl
  | unary op => exact overflows_yield fun e => cause_of_unary
  | discard quiet =>
    simp only [valueStep]
    split_ifs <;> rfl
  | branch yes no =>
    simp only [valueStep]
    cases no <;> split_ifs <;> rfl
  | loopCondition cond body =>
    simp only [valueStep]
    split_ifs <;> rfl
  | _ => rfl

/-- Without a limit no stack overflow is raised. -/
theorem overflows_step_unlimited (h : s.control.overflows = false) :
    (s.step mode.unlimited).control.overflows = false := by
  obtain ⟨control, stack, registers, store, output⟩ := s
  cases control with
  | eval e =>
    cases e with
    | literal value => cases value <;> rfl
    | «variable» id name =>
      simp only [step, evalStep]
      split <;> rfl
    | _ => rfl
  | exec x =>
    cases x with
    | ret keyword value => cases value <;> rfl
    | varDecl name init => cases init <;> rfl
    | _ => rfl
  | value v =>
    cases stack with
    | nil => rfl
    | cons k ks => exact overflows_valueStep v k
  | done c =>
    cases stack with
    | nil => rfl
    | cons k ks =>
      cases k with
      | loopBody cond body => cases c <;> rfl
      | sequence rest => cases c <;> cases rest <;> rfl
      | leaveCall registers => cases c <;> rfl
      | _ => rfl
  | raise e =>
    cases stack with
    | nil => exact h
    | cons k ks => cases k <;> exact h

theorem overflows_iterate (h : s.control.overflows = false) (n : Nat) :
    ((step mode.unlimited)^[n] s).control.overflows = false := by
  induction n with
  | zero => exact h
  | succ n ih =>
    rw [Function.iterate_succ_apply']
    exact overflows_step_unlimited ih

/-! ### With and without a limit -/

/-- The next step attempts one call more than the limit allows. -/
def Exceeds (limit : Nat) (s : State) : Prop :=
  s.attempt?.isSome = true ∧ s.calls = limit

variable {limit : Nat} (hm : mode.maxDepth = some limit)

include hm

theorem Counted.atLimit_eq (h : s.Counted mode) : s.atLimit mode = true ↔ s.calls = limit := by
  rw [atLimit, hm, decide_eq_true_iff, h.depth_eq]
  exact (h.le limit hm).ge_iff_eq

/-- As long as the limit is not exceeded it makes no difference. -/
theorem iterate_unlimited (hs : s.Counted mode) {n : Nat}
    (h : ∀ m < n, ¬ ((step mode.unlimited)^[m] s).Exceeds limit) :
    (step mode)^[n] s = (step mode.unlimited)^[n] s := by
  induction n with
  | zero => rfl
  | succ n ih =>
    have hsame := ih fun m hlt => h m (Nat.lt_succ_of_lt hlt)
    have hcounted : ((step mode.unlimited)^[n] s).Counted mode := hsame ▸ hs.iterate n
    rw [Function.iterate_succ_apply', Function.iterate_succ_apply', hsame]
    apply step_unlimited
    by_cases ha : ((step mode.unlimited)^[n] s).attempt? = none
    · exact .inl ha
    · right
      rw [Bool.eq_false_iff]
      intro hl
      exact h n (Nat.lt_succ_self n)
        ⟨Option.isSome_iff_ne_none.2 ha, (hcounted.atLimit_eq hm).1 hl⟩

/-- The first call beyond the limit ends the run at its closing parenthesis. -/
theorem run_exceeds (hs : s.Counted mode) {n : Nat} {c : Call}
    (h : ∀ m < n, ¬ ((step mode.unlimited)^[m] s).Exceeds limit)
    (ha : ((step mode.unlimited)^[n] s).attempt? = some c)
    (hc : ((step mode.unlimited)^[n] s).calls = limit) :
    ∃ fuel final, run mode fuel s = some final ∧
      final.error? = some ⟨c.paren, .stackOverflow⟩ ∧
      final.output = ((step mode.unlimited)^[n] s).output := by
  have hsame := iterate_unlimited hm hs h
  rw [← hsame] at ha hc ⊢
  have hl := ((hs.iterate n).atLimit_eq hm).2 hc
  obtain ⟨hraise, houtput⟩ := step_overflow ha hl
  obtain ⟨fuel, final, hrun, herror, -, houtput'⟩ := exists_run_of_raise mode hraise
  refine ⟨n + 1 + fuel, final, ?_, herror, houtput'.trans houtput⟩
  rw [run_add, Function.iterate_succ_apply']
  exact hrun

/-- A run that does not exceed the limit reports no stack overflow. -/
theorem error?_ne_stackOverflow (hs : s.Counted mode) (hcontrol : s.control.overflows = false)
    (h : ∀ m, ¬ ((step mode.unlimited)^[m] s).Exceeds limit) {fuel : Nat} {final : State}
    (hrun : run mode fuel s = some final) {e : RuntimeError} (he : final.error? = some e) :
    e.cause ≠ .stackOverflow := by
  obtain ⟨rfl, -⟩ := run_eq_some_iff.1 hrun
  rw [iterate_unlimited hm hs fun m _ => h m] at he
  have hno : ((step mode.unlimited)^[fuel] s).control.overflows = false :=
    overflows_iterate hcontrol fuel
  rw [error?_eq_some_iff.1 he] at hno
  exact of_decide_eq_false hno

/-- The limit is exceeded somewhere exactly if a stack overflow is reported. -/
theorem reports_iff_exceeds (hs : s.Counted mode) (hcontrol : s.control.overflows = false) :
    (∃ fuel final e, run mode fuel s = some final ∧ final.error? = some e ∧
        e.cause = .stackOverflow) ↔
      ∃ n, ((step mode.unlimited)^[n] s).Exceeds limit := by
  constructor
  · rintro ⟨fuel, final, e, hrun, herror, hcause⟩
    by_contra hno
    push Not at hno
    exact error?_ne_stackOverflow hm hs hcontrol hno hrun herror hcause
  · intro hex
    classical
    obtain ⟨ha, hc⟩ := Nat.find_spec hex
    obtain ⟨c, ha⟩ := Option.isSome_iff_exists.1 ha
    obtain ⟨fuel, final, hrun, herror, -⟩ :=
      run_exceeds hm hs (fun m hlt => Nat.find_min hex hlt) ha hc
    exact ⟨fuel, final, _, hrun, herror, rfl⟩

end State

/-- The limit on nested calls is exact and has no other effect. Let a program be run with the limit
of 10000 calls and without a limit, on the same store.

At every moment of either run, also while a class is being called, the register holds the number of
calls in progress, which with the limit is never more than 10000. If the run with the limit reports
no stack overflow, both runs go through the same states and halt alike. It reports one exactly if
the run without a limit comes to a call that is attempted while 10000 calls are in progress; then
the error stands at the closing parenthesis of the first such call, and what is written is what the
run without a limit has written up to it. -/
theorem call_limit_exact (echo : Bool) (store : Store) (stmts : List Stmt) (locals : Locals) :
    let limited : Mode := { echo }
    let unlimited : Mode := { echo, maxDepth := none }
    let start := State.start store stmts locals
    let unbounded := fun n => (State.step unlimited)^[n] start
    (∀ s, State.Passes limited start s → s.registers.depth = s.calls ∧ s.calls ≤ 10000) ∧
    (∀ s, State.Passes unlimited start s → s.registers.depth = s.calls) ∧
    ((∀ fuel final e, State.run limited fuel start = some final → final.error? = some e →
        e.cause.message ≠ "Stack overflow.") →
      ∀ n, (State.step limited)^[n] start = unbounded n ∧
        State.run limited n start = State.run unlimited n start) ∧
    ((∃ fuel final e, State.run limited fuel start = some final ∧ final.error? = some e ∧
        e.cause.message = "Stack overflow.") ↔
      ∃ n, (unbounded n).attempt?.isSome = true ∧ (unbounded n).calls = 10000) ∧
    ∀ n c, (unbounded n).attempt? = some c → (unbounded n).calls = 10000 →
      (∀ m < n, ¬ ((unbounded m).attempt?.isSome = true ∧ (unbounded m).calls = 10000)) →
      ∃ fuel final, State.run limited fuel start = some final ∧
        final.error? = some ⟨c.paren, .stackOverflow⟩ ∧ final.output = (unbounded n).output := by
  intro limited unlimited start unbounded
  have hs : start.Counted limited := State.counted_start limited store stmts locals
  have hs' : start.Counted unlimited := State.counted_start unlimited store stmts locals
  have hlimit : limited.maxDepth = some 10000 := rfl
  have hreports := State.reports_iff_exceeds hlimit hs rfl
  simp only [RuntimeCause.message_eq_iff, ne_eq]
  refine ⟨fun s h => ?_, fun s h => (hs'.passes h).depth_eq, fun hno n => ?_, hreports, ?_⟩
  · have hcounted := hs.passes h
    exact ⟨hcounted.depth_eq, hcounted.le 10000 rfl⟩
  · have hgoes : ∀ m, ¬ (unbounded m).Exceeds 10000 := by
      intro m hm
      obtain ⟨fuel, final, e, hrun, herror, hcause⟩ := hreports.2 ⟨m, hm⟩
      exact hno fuel final e hrun herror hcause
    have hsame : (State.step limited)^[n] start = unbounded n :=
      State.iterate_unlimited rfl hs fun m _ => hgoes m
    refine ⟨hsame, ?_⟩
    rw [State.run_eq_ite, State.run_eq_ite, hsame]
  · intro n c ha hc hfirst
    exact State.run_exceeds rfl hs hfirst ha hc

end Wandika
