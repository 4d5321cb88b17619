import Mathlib.Tactic
import Wandika.Machine

/-!
# What a step does not look at

A step looks neither at the work that waits below the one it hands an outcome to, nor at the texts
that were written before. Whether values are echoed matters only to what it writes itself.

* `State.written?`: the text that the next step writes;
* `State.within`: a state with more that waits below, and with other texts written before;
* `State.step_within`: a step leaves these as they are, and adds the text that it writes;
* `State.output_step`, `State.output_iterate`: what is written by a step, and in a run.
-/

namespace Wandika

/-- The text that work writes when it is handed a value. -/
def Pending.writes? (mode : Mode) (v : Value) : Pending → Option Output
  | .print => some (.printed v.render)
  | .discard quiet => if mode.echo && !quiet then some (.echoed v.render) else none
  | _ => none

namespace State

/-- The text that the next step writes. -/
def written? (mode : Mode) (s : State) : Option Output :=
  match s.control, s.stack with
  | .value v, k :: _ => k.writes? mode v
  | _, _ => none

/-- The state with more that waits below, and with other texts written before. -/
def within (s : State) (ks : List Pending) (o : List Output) : State :=
  { s with stack := s.stack ++ ks, output := o }

theorem within_nil (s : State) (o : List Output) : s.within [] o = { s with output := o } := by
  simp [within]

section Steps

variable (s : State) (ks : List Pending) (o : List Output)

theorem evalStep_within (e : Expr) :
    (s.within ks o).evalStep e = (s.evalStep e).within ks o := by
  cases e with
  | literal value => cases value <;> rfl
  | «variable» id name =>
    have hvalue : (s.within ks o).valueOf? id name = s.valueOf? id name := rfl
    simp only [evalStep, hvalue]
    cases s.valueOf? id name <;> rfl
  | _ => rfl

theorem execStep_within (x : Stmt) :
    (s.within ks o).execStep x = (s.execStep x).within ks o := by
  cases x with
  | ret keyword value => cases value <;> rfl
  | varDecl name init => cases init <;> rfl
  | _ => rfl

theorem doneStep_within (c : Completion) (k : Pending) :
    (s.within ks o).doneStep c k = (s.doneStep c k).within ks o := by
  cases k with
  | loopBody cond body => cases c <;> rfl
  | sequence rest => cases c <;> cases rest <;> rfl
  | leaveCall registers => cases c <;> rfl
  | _ => rfl

theorem raiseStep_within (e : RuntimeError) (k : Pending) :
    (s.within ks o).raiseStep e k = (s.raiseStep e k).within ks o := by
  cases k <;> rfl

section Modes

variable {mode mode' : Mode} (hdepth : mode'.maxDepth = mode.maxDepth)

include hdepth

theorem atLimit_within : (s.within ks o).atLimit mode' = s.atLimit mode := by
  unfold atLimit
  rw [hdepth]
  rfl

theorem enter_within (paren : Option Token) (f : Closure) (args : List Value) :
    (s.within ks o).enter mode' paren f args = (s.enter mode paren f args).within ks o := by
  simp only [enter, atLimit_within s ks o hdepth]
  split_ifs <;> rfl

theorem construct_within (paren : Option Token) (c : Class) :
    (s.within ks o).construct mode' paren c = (s.construct mode paren c).within ks o := by
  simp only [construct, atLimit_within s ks o hdepth]
  split_ifs <;> rfl

theorem call_within (paren : Option Token) (callee : Value) (args : List Value) :
    (s.within ks o).call mode' paren callee args = (s.call mode paren callee args).within ks o := by
  cases callee with
  | datum d =>
    cases d with
    | cls c =>
      simp only [call]
      split_ifs
      · exact construct_within s ks o hdepth paren c
      · rfl
    | _ => rfl
  | function f =>
    simp only [call]
    split_ifs
    · exact enter_within s ks o hdepth paren f args
    · rfl
  | overloads overloads =>
    simp only [call]
    cases overloads.select? args.length with
    | some f => exact enter_within s ks o hdepth paren f args
    | none => rfl

theorem valueStep_within (v : Value) (k : Pending) :
    (s.within ks o).valueStep mode' v k =
      (s.valueStep mode v k).within ks ((k.writes? mode' v).toList ++ o) := by
  cases k with
  | assign id name =>
    have hholder : (s.within ks o).holder? id name = s.holder? id name := rfl
    simp only [valueStep, hholder]
    cases s.holder? id name <;> rfl
  | binary op lhs =>
    simp only [valueStep]
    cases applyBinary op lhs v <;> rfl
  | callee paren args =>
    cases args with
    | nil => exact call_within s ks o hdepth paren v []
    | cons arg args => rfl
  | argument paren callee before after =>
    cases after with
    | nil => exact call_within s ks o hdepth paren callee (before ++ [v])
    | cons arg args => rfl
  | property name =>
    cases v with
    | datum d =>
      cases d with
      | object object =>
        have hfield : (s.within ks o).store.field? object name.lexeme =
          s.store.field? object name.lexeme := rfl
        simp only [valueStep, hfield]
        cases s.store.field? object name.lexeme <;> rfl
      | _ => rfl
    | _ => rfl
  | logical op rhs =>
    simp only [valueStep]
    rcases decides op v with e | (_ | _) <;> rfl
  | fieldOwner name value =>
    cases v with
    | datum d => cases d <;> rfl
    | _ => rfl
  | choose yes no =>
    simp only [valueStep]
    cases no <;> split_ifs <;> rfl
  | unary op =>
    simp only [valueStep]
    cases applyUnary op v <;> rfl
  | discard quiet =>
    simp only [valueStep, Pending.writes?]
    split_ifs <;> rfl
  | branch yes no =>
    simp only [valueStep]
    cases no <;> split_ifs <;> rfl
  | loopCondition cond body =>
    simp only [valueStep]
    split_ifs <;> rfl
  | _ => rfl

/-- Until the work above is finished, a step neither reads nor changes what waits below and what was
written before. -/
theorem step_within (h : s.halted = false) :
    (s.within ks o).step mode' =
      (s.step mode).within ks ((s.written? mode').toList ++ o) := by
  obtain ⟨control, stack, registers, store, output⟩ := s
  cases control with
  | eval e => exact evalStep_within _ ks o e
  | exec x => exact execStep_within _ ks o x
  | value v =>
    cases stack with
    | nil => cases h
    | cons k stack =>
      exact valueStep_within ⟨.value v, stack, registers, store, output⟩ ks o hdepth v k
  | done c =>
    cases stack with
    | nil => cases h
    | cons k stack => exact doneStep_within ⟨.done c, stack, registers, store, output⟩ ks o c k
  | raise e =>
    cases stack with
    | nil => cases h
    | cons k stack => exact raiseStep_within ⟨.raise e, stack, registers, store, output⟩ ks o e k

end Modes

end Steps

theorem written?_of_halted {s : State} (h : s.halted = true) (mode : Mode) :
    s.written? mode = none := by
  obtain ⟨control, stack, registers, store, output⟩ := s
  cases control <;> cases stack <;> first | rfl | cases h

/-- Of the texts that were written, a step sees nothing, also when the work is finished. -/
theorem step_telling {mode mode' : Mode} (hdepth : mode'.maxDepth = mode.maxDepth) (s : State)
    (o : List Output) :
    State.step mode' { s with output := o } =
      { s.step mode with output := (s.written? mode').toList ++ o } := by
  cases h : s.halted with
  | true =>
    have h' : halted { s with output := o } = true := h
    rw [step_of_halted h, step_of_halted h', written?_of_halted h]
    rfl
  | false => rw [← within_nil, ← within_nil, step_within s [] o hdepth h]

theorem output_step (mode : Mode) (s : State) :
    (s.step mode).output = (s.written? mode).toList ++ s.output := by
  have hdepth : mode.maxDepth = mode.maxDepth := rfl
  exact congrArg State.output (step_telling hdepth s s.output)

/-- What is written in a run, in order. -/
theorem output_iterate (mode : Mode) (s : State) (n : Nat) :
    ((step mode)^[n] s).output.reverse = s.output.reverse ++
      (List.range n).filterMap fun i => ((step mode)^[i] s).written? mode := by
  induction n with
  | zero => simp
  | succ n ih =>
    rw [Function.iterate_succ_apply', output_step, List.reverse_append, ih, List.range_succ,
      List.filterMap_append, List.append_assoc]
    cases hwritten : ((step mode)^[n] s).written? mode <;> simp [hwritten]

end State

end Wandika
