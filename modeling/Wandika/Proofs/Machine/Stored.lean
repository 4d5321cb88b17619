import Wandika.Proofs.Machine.Effects

/-!
# Where values are kept

A value may be the outcome at hand, wait on the stack, be bound in a frame or be a field of an
object. A step moves values from one such place to another. New are data only, and what a function
statement binds its name to.

* `Control.values`, `Pending.values`, `State.Stored`: the values of a state;
* `State.Makes`: the values that a step can make;
* `State.stored_step_cases`, `State.stored_step`: where a value after a step comes from;
* `Course`: the states that a session passes through.
-/

namespace Wandika

/-- The values of the work at hand. -/
def Control.values : Control → List Value
  | .value v | .done (.returned v) => [v]
  | .eval _ | .exec _ | .done .next | .raise _ => []

/-- The values of work that waits. -/
def Pending.values : Pending → List Value
  | .binary _ lhs => [lhs]
  | .argument _ f before _ => f :: before
  | .fieldValue _ owner => [.object owner]
  | _ => []

namespace State

/-- The value is kept in the state: as the outcome at hand, by work that waits, in a frame or in an
object. -/
inductive Stored (s : State) (v : Value) : Prop
  | control (mem : v ∈ s.control.values)
  | stack (k : Pending) (waits : k ∈ s.stack) (mem : v ∈ k.values)
  | bound (frame : FrameId) (name : String) (value : s.store.frames.lookup frame name = some v)
  | field (o : Object) (name : String) (value : s.store.field? o name = some v)

/-- The callee and the arguments of a call that is made next are kept in the state. -/
theorem stored_of_ready {s : State} {c : Call} (h : s.ready? = some c) :
    s.Stored c.callee ∧ ∀ v ∈ c.args, s.Stored v := by
  obtain ⟨control, stack, registers, store, output⟩ := s
  cases control with
  | value v =>
    have hv : Stored ⟨.value v, stack, registers, store, output⟩ v := .control List.mem_cons_self
    cases stack with
    | nil => cases h
    | cons k ks =>
      cases k with
      | callee paren args =>
        cases args with
        | nil =>
          cases h
          exact ⟨hv, by simp⟩
        | cons arg args => cases h
      | argument paren f before after =>
        have hk : ∀ w ∈ f :: before,
            Stored ⟨.value v, .argument paren f before after :: ks, registers, store, output⟩ w :=
          fun w hw => .stack _ List.mem_cons_self hw
        cases after with
        | nil =>
          cases h
          refine ⟨hk f List.mem_cons_self, fun w hw => ?_⟩
          rcases List.mem_append.1 hw with hw | hw
          · exact hk w (List.mem_cons_of_mem _ hw)
          · cases List.mem_singleton.1 hw
            exact hv
        | cons arg args => cases h
      | _ => cases h
  | _ => cases h

end State

/-! ### Operators make plain data -/

theorem plain_applyUnary {op : Token} {a v : Value} (h : applyUnary op a = .ok v) :
    ∃ d : Datum, d.fromText = true ∧ v = .datum d := by
  unfold applyUnary at h
  split at h
  · cases h
    exact ⟨_, rfl, rfl⟩
  · split at h
    · cases h
      exact ⟨_, rfl, rfl⟩
    · cases h
  · cases h

theorem plain_arithmetic {op : Token} {x y : Float} {v : Value} (h : arithmetic op x y = .ok v) :
    ∃ d : Datum, d.fromText = true ∧ v = .datum d := by
  unfold arithmetic at h
  split at h
  case h_3 | h_4 =>
    split_ifs at h
    cases h
    exact ⟨_, rfl, rfl⟩
  case h_6 => cases h
  all_goals
    cases h
    exact ⟨_, rfl, rfl⟩

theorem plain_add (a b : Value) : ∃ d : Datum, d.fromText = true ∧ add a b = .datum d := by
  unfold add
  split <;> exact ⟨_, rfl, rfl⟩

theorem plain_applyBinary {op : Token} {a b v : Value} (h : applyBinary op a b = .ok v) :
    ∃ d : Datum, d.fromText = true ∧ v = .datum d := by
  unfold applyBinary at h
  split at h
  case h_7 =>
    cases h
    exact plain_add a b
  case h_8 =>
    cases hn : numbers op a b with
    | error e =>
      rw [hn] at h
      cases h
    | ok xy =>
      rw [hn] at h
      exact plain_arithmetic h
  all_goals
    cases h
    exact ⟨_, rfl, rfl⟩

namespace State

/-- The next step may make the value: a plain datum, the literal at hand, a class, an object, or
what a function statement binds its name to. -/
inductive Makes (mode : Mode) (s : State) : Value → Prop
  | plain {d : Datum} (h : d.fromText = true) : Makes mode s (.datum d)
  | literal {d : Datum} (control : s.control = .eval (.literal d)) (present : d ≠ .absent) :
      Makes mode s (.datum d)
  | cls (name : String) : Makes mode s (.datum (.cls ⟨s.store.nextId, name⟩))
  | object (c : Class) (store : (s.step mode).store = (s.store.newObject c).2) :
      Makes mode s (.object (s.store.newObject c).1)
  | function {decl : FunDecl} (control : s.control = .exec (.function decl)) :
      Makes mode s (s.declared decl)

/-! ### Work at hand and work that waits -/

/-- The work at hand and the work that waits keep only values that are as `P` says. -/
structure Bears (P : Value → Prop) (s : State) : Prop where
  control : ∀ v ∈ s.control.values, P v
  stack : ∀ k ∈ s.stack, ∀ v ∈ k.values, P v

section Bears

variable {P : Value → Prop} {mode : Mode} {s : State} {v : Value}

theorem Bears.quiet (h : ∀ k ∈ s.stack, ∀ v ∈ k.values, P v) {control : Control}
    (hc : control.values = []) : (s.goto control).Bears P :=
  ⟨by simp [goto, hc], h⟩

theorem Bears.gives (h : ∀ k ∈ s.stack, ∀ v ∈ k.values, P v) (hv : P v) :
    (s.goto (.value v)).Bears P :=
  ⟨by simpa [goto, Control.values] using hv, h⟩

theorem Bears.push (h : ∀ k ∈ s.stack, ∀ v ∈ k.values, P v) {control : Control} {k : Pending}
    (hc : control.values = []) (hk : ∀ v ∈ k.values, P v) : (s.push control k).Bears P :=
  ⟨by simp [State.push, hc], List.forall_mem_cons.2 ⟨hk, h⟩⟩

theorem Bears.yield (h : ∀ k ∈ s.stack, ∀ v ∈ k.values, P v) {x : Except RuntimeError Value}
    (hx : ∀ v, x = .ok v → P v) : (s.yield x).Bears P := by
  cases x with
  | ok v => exact .gives h (hx v rfl)
  | error e => exact .quiet h rfl

/-- If the second state has one object more than the first, the object is as `P` says. -/
def Welcomes (P : Value → Prop) (s t : State) : Prop :=
  ∀ c, t.store = (s.store.newObject c).2 → P (.object (s.store.newObject c).1)

theorem bears_call {c : Call} (h : ∀ k ∈ s.stack, ∀ v ∈ k.values, P v)
    (hobject : Welcomes P s (s.call mode c.paren c.callee c.args)) :
    (s.call mode c.paren c.callee c.args).Bears P := by
  have hcall : Calls mode s c.callee c.args (s.call mode c.paren c.callee c.args) := calls_call
  generalize s.call mode c.paren c.callee c.args = t at hcall hobject ⊢
  cases hcall with
  | runs => exact ⟨by simp [Control.values], by simpa [Pending.values] using h⟩
  | makes cls => exact ⟨by simpa [Control.values] using hobject cls rfl, h⟩
  | fails e => exact .quiet h rfl

section Steps

variable (hs : ∀ v, s.Stored v → P v)

include hs

theorem bears_stack : ∀ k ∈ s.stack, ∀ v ∈ k.values, P v :=
  fun k hk v hv => hs v (.stack k hk hv)

variable (hplain : ∀ d : Datum, d.fromText = true → P (.datum d))

include hplain

theorem bears_evalStep (e : Expr)
    (hliteral : ∀ d : Datum, e = .literal d → d ≠ .absent → P (.datum d)) :
    (s.evalStep e).Bears P := by
  have hstack := bears_stack hs
  cases e with
  | literal d =>
    cases d with
    | absent => exact .gives hstack (hplain _ rfl)
    | _ => exact .gives hstack (hliteral _ rfl (by simp))
  | group inner => exact .quiet hstack rfl
  | «variable» id name =>
    simp only [evalStep]
    cases hv : s.valueOf? id name with
    | none => exact .quiet hstack rfl
    | some v =>
      obtain ⟨frame, -, hlookup⟩ := Option.bind_eq_some_iff.1 hv
      exact .gives hstack (hs v (.bound frame name.lexeme hlookup))
  | _ => exact .push hstack rfl (by simp [Pending.values])

theorem bears_execStep (x : Stmt) : (s.execStep x).Bears P := by
  have hstack := bears_stack hs
  cases x with
  | block body => exact ⟨by simp [execStep, Control.values], by simpa [execStep, Pending.values]⟩
  | classDecl | function => exact ⟨by simp [execStep, Control.values], hstack⟩
  | ret keyword value =>
    cases value with
    | none => exact ⟨by simpa [execStep, goto, Control.values] using hplain _ rfl, hstack⟩
    | some value => exact .push hstack rfl (by simp [Pending.values])
  | varDecl name init =>
    cases init with
    | none => exact ⟨by simp [execStep, goto, Control.values], hstack⟩
    | some init => exact .push hstack rfl (by simp [Pending.values])
  | _ => exact .push hstack rfl (by simp [Pending.values])

end Steps

theorem bears_valueStep {k : Pending} (hstack : ∀ k ∈ s.stack, ∀ v ∈ k.values, P v)
    (hfield : ∀ o name x, s.store.field? o name = some x → P x)
    (hplain : ∀ d : Datum, d.fromText = true → P (.datum d))
    (hobject : Welcomes P s (s.valueStep mode v k)) (hv : P v) (hk : ∀ w ∈ k.values, P w) :
    (s.valueStep mode v k).Bears P := by
  cases hcall : k.call? v with
  | some c =>
    rw [valueStep_of_call? hcall] at hobject ⊢
    exact bears_call hstack hobject
  | none =>
    cases k with
    | assign id name =>
      simp only [valueStep]
      split
      · exact ⟨by simpa [Control.values] using hv, hstack⟩
      · exact .quiet hstack rfl
    | rightOperand op rhs => exact .push hstack rfl (by simpa [Pending.values] using hv)
    | binary op lhs =>
      refine .yield hstack fun w hw => ?_
      obtain ⟨d, hd, rfl⟩ := plain_applyBinary hw
      exact hplain d hd
    | callee paren args =>
      cases args with
      | nil => cases hcall
      | cons arg args => exact .push hstack rfl (by simpa [Pending.values] using hv)
    | argument paren f before after =>
      cases after with
      | nil => cases hcall
      | cons arg args =>
        simp only [Pending.values, List.forall_mem_cons] at hk
        refine .push hstack rfl ?_
        simp only [Pending.values, List.forall_mem_cons, List.forall_mem_append]
        exact ⟨hk.1, hk.2, hv, by simp⟩
    | property name =>
      simp only [valueStep]
      split
      · split
        · rename_i x hx
          exact .gives hstack (hfield _ _ x hx)
        · exact .quiet hstack rfl
      · exact .quiet hstack rfl
    | logical op rhs =>
      simp only [valueStep]
      split
      · exact .gives hstack hv
      · exact .quiet hstack rfl
      · exact .quiet hstack rfl
    | fieldOwner name value =>
      simp only [valueStep]
      split
      · exact .push hstack rfl (by simpa [Pending.values] using hv)
      · exact .quiet hstack rfl
    | fieldValue name owner => exact ⟨by simpa [valueStep, Control.values] using hv, hstack⟩
    | choose yes no =>
      simp only [valueStep]
      split_ifs
      · exact .quiet hstack rfl
      · cases no with
        | none => exact .gives hstack (hplain _ rfl)
        | some no => exact .quiet hstack rfl
    | unary op =>
      refine .yield hstack fun w hw => ?_
      obtain ⟨d, hd, rfl⟩ := plain_applyUnary hw
      exact hplain d hd
    | discard quiet =>
      simp only [valueStep]
      split_ifs
      · exact ⟨by simp [goto, Control.values], hstack⟩
      · exact .quiet hstack rfl
    | branch yes no =>
      simp only [valueStep]
      split_ifs
      · exact .quiet hstack rfl
      · cases no <;> exact .quiet hstack rfl
    | ret => exact ⟨by simpa [valueStep, goto, Control.values] using hv, hstack⟩
    | loopCondition cond body =>
      simp only [valueStep]
      split_ifs
      · exact .push hstack rfl (by simp [Pending.values])
      · exact .quiet hstack rfl
    | print | varDecl => exact ⟨by simp [valueStep, goto, Control.values], hstack⟩
    | loopBody | sequence | leaveBlock | leaveCall =>
      refine ⟨by simpa [valueStep, State.push, Control.values] using hv, ?_⟩
      exact List.forall_mem_cons.2 ⟨hk, hstack⟩

theorem bears_doneStep {c : Completion} {k : Pending}
    (hstack : ∀ k ∈ s.stack, ∀ v ∈ k.values, P v)
    (hplain : ∀ d : Datum, d.fromText = true → P (.datum d))
    (hc : ∀ v ∈ (Control.done c).values, P v) (hk : ∀ w ∈ k.values, P w) :
    (s.doneStep c k).Bears P := by
  cases k with
  | loopBody cond body =>
    cases c with
    | next => exact .push hstack rfl (by simp [Pending.values])
    | returned v => exact ⟨hc, hstack⟩
  | sequence rest =>
    cases c with
    | next =>
      cases rest with
      | nil => exact .quiet hstack rfl
      | cons x rest => exact .push hstack rfl (by simp [Pending.values])
    | returned v => cases rest <;> exact ⟨hc, hstack⟩
  | leaveBlock frame => exact ⟨hc, hstack⟩
  | leaveCall registers =>
    cases c with
    | next => exact ⟨by simpa [doneStep, Control.values] using hplain _ rfl, hstack⟩
    | returned v => exact ⟨by simpa [doneStep, Control.values] using hc, hstack⟩
  | _ => exact ⟨hc, List.forall_mem_cons.2 ⟨hk, hstack⟩⟩

theorem bears_raiseStep {e : RuntimeError} {k : Pending}
    (hstack : ∀ k ∈ s.stack, ∀ v ∈ k.values, P v) : (s.raiseStep e k).Bears P := by
  cases k <;> exact ⟨by simp [raiseStep, goto, Control.values], hstack⟩

/-- What holds of all values of a state and of all that the next step makes holds of all values
that the work at hand and the work that waits keep after the step. -/
theorem bears_step (hs : ∀ v, s.Stored v → P v) (hmakes : ∀ v, s.Makes mode v → P v) :
    (s.step mode).Bears P := by
  have hplain : ∀ d : Datum, d.fromText = true → P (.datum d) := fun d hd => hmakes _ (.plain hd)
  have hobject : Welcomes P s (s.step mode) := fun c hc => hmakes _ (.object c hc)
  obtain ⟨control, stack, registers, store, output⟩ := s
  cases control with
  | eval e =>
    refine bears_evalStep hs hplain e ?_
    rintro d rfl hd
    exact hmakes _ (.literal rfl hd)
  | exec x => exact bears_execStep hs hplain x
  | value v =>
    have hv : P v := hs v (.control List.mem_cons_self)
    cases stack with
    | nil => exact ⟨fun w hw => hs w (.control hw), bears_stack hs⟩
    | cons k ks =>
      obtain ⟨hk, hks⟩ := List.forall_mem_cons.1 (bears_stack hs)
      exact bears_valueStep hks (fun o name x hx => hs x (.field o name hx)) hplain hobject hv hk
  | done c =>
    have hc : ∀ v ∈ (Control.done c).values, P v := fun w hw => hs w (.control hw)
    cases stack with
    | nil => exact ⟨hc, bears_stack hs⟩
    | cons k ks =>
      obtain ⟨hk, hks⟩ := List.forall_mem_cons.1 (bears_stack hs)
      exact bears_doneStep hks hplain hc hk
  | raise e =>
    cases stack with
    | nil => exact ⟨fun w hw => hs w (.control hw), bears_stack hs⟩
    | cons k ks => exact bears_raiseStep (List.forall_mem_cons.1 (bears_stack hs)).2

end Bears

/-! ### All values -/

/-- What is put into a frame was kept in the state, or the step has made it. -/
theorem Puts.stored {mode : Mode} {s : State} {frame : FrameId} {name : String} {v : Value}
    (h : s.Puts mode frame name v) : s.Stored v ∨ s.Makes mode v := by
  cases h with
  | cls token methods lexeme control frame_eq value =>
    subst value
    exact Or.inr (.cls name)
  | nil token lexeme control frame_eq value =>
    subst value
    exact Or.inr (.plain rfl)
  | var token lexeme control => exact Or.inl (.control (by simp [control, Control.values]))
  | assign id token lexeme control => exact Or.inl (.control (by simp [control, Control.values]))
  | param c f ready target frame_eq bound =>
    exact Or.inl ((stored_of_ready ready).2 v (mem_of_bindParams bound))

/-- A value after a step was kept before the step, or the step has made it. -/
theorem stored_step_cases {mode : Mode} {s : State} {v : Value} (h : (s.step mode).Stored v) :
    s.Stored v ∨ s.Makes mode v := by
  have hbears : (s.step mode).Bears fun w => s.Stored w ∨ s.Makes mode w :=
    bears_step (fun w hw => Or.inl hw) fun w hw => Or.inr hw
  cases h with
  | control mem => exact hbears.control v mem
  | stack k waits mem => exact hbears.stack k waits v mem
  | bound frame name value =>
    rcases lookup_step value with h | h | ⟨decl, hdecl, rfl⟩
    · exact Or.inl (.bound frame name h)
    · exact h.stored
    · exact Or.inr (.function hdecl.1)
  | field o name value =>
    rcases field?_step value with h | h
    · exact Or.inl (.field o name h)
    · exact Or.inl (.control (by simp [h, Control.values]))

/-- A value after a step was kept before the step, or is a datum, or is what a function statement
has bound its name to. -/
theorem stored_step {mode : Mode} {s : State} {v : Value} (h : (s.step mode).Stored v) :
    s.Stored v ∨ (∃ d, v = .datum d) ∨
      ∃ decl, s.control = .exec (.function decl) ∧ v = s.declared decl := by
  refine (stored_step_cases h).imp_right fun hmakes => ?_
  cases hmakes with
  | function control => exact Or.inr ⟨_, control, rfl⟩
  | plain | literal | cls | object => exact Or.inl ⟨_, rfl⟩

end State

/-! ### Sessions -/

/-- The states that a session of units passes through, the latest first. The next unit begins when
the state is halted, also after an error. -/
inductive Course (mode : Mode) : List State → Prop
  | first (u : SourceUnit) : Course mode [State.start Store.empty u.program.stmts u.locals]
  | step {s : State} {past : List State} (h : Course mode (s :: past)) :
      Course mode (s.step mode :: s :: past)
  | next {s : State} {past : List State} (h : Course mode (s :: past)) (hs : s.halted = true)
      (u : SourceUnit) : Course mode (State.start s.store u.program.stmts u.locals :: s :: past)

section Courses

variable {mode : Mode} {s : State} {past : List State}

/-- Every moment of a session comes at the end of a course. -/
theorem Moment.course {us : List SourceUnit} {t : Trail} (h : Moment mode us s t) :
    ∃ past, Course mode (s :: past) := by
  induction h with
  | first u => exact ⟨[], .first u⟩
  | step _ ih =>
    obtain ⟨past, hpast⟩ := ih
    exact ⟨_, hpast.step⟩
  | next _ hs u ih =>
    obtain ⟨past, hpast⟩ := ih
    exact ⟨_, hpast.next hs u⟩

/-- The states of a course are moments of a session. -/
theorem Course.moment (h : Course mode past) : ∀ s ∈ past, ∃ us t, Moment mode us s t := by
  induction h with
  | first u => exact List.forall_mem_singleton.2 ⟨_, _, .first u⟩
  | step _ ih =>
    obtain ⟨us, t, hm⟩ := ih _ List.mem_cons_self
    exact List.forall_mem_cons.2 ⟨⟨us, _, hm.step⟩, ih⟩
  | next _ hs u ih =>
    obtain ⟨us, t, hm⟩ := ih _ List.mem_cons_self
    exact List.forall_mem_cons.2 ⟨⟨_, _, hm.next hs u⟩, ih⟩

theorem Course.iterate (h : Course mode (s :: past)) (n : Nat) :
    ∃ past', Course mode ((State.step mode)^[n] s :: past') := by
  induction n with
  | zero => exact ⟨past, h⟩
  | succ n ih =>
    obtain ⟨past', h'⟩ := ih
    rw [Function.iterate_succ_apply']
    exact ⟨_, h'.step⟩

/-- The state after some steps of a session that begins with the text, if it is a unit. -/
def State.after? (mode : Mode) (source : List Char) (steps : Nat) : Option State :=
  (SourceUnit.ofSource? source).map fun u =>
    (State.step mode)^[steps] (State.start Store.empty u.program.stmts u.locals)

theorem Course.of_after? {source : List Char} {steps : Nat}
    (h : State.after? mode source steps = some s) : ∃ past, Course mode (s :: past) := by
  obtain ⟨u, -, rfl⟩ := Option.map_eq_some_iff.1 h
  exact (Course.first u).iterate steps

/-- When a unit begins, the values are those in the store that was left. -/
theorem State.stored_start {store : Store} {stmts : List Stmt} {locals : Locals} {v : Value}
    (h : (State.start store stmts locals).Stored v) :
    (∃ frame name, store.frames.lookup frame name = some v) ∨
      ∃ o name, store.field? o name = some v := by
  cases h with
  | control mem => cases mem
  | stack k waits mem =>
    cases List.mem_singleton.1 waits
    cases mem
  | bound frame name value => exact Or.inl ⟨frame, name, value⟩
  | field o name value => exact Or.inr ⟨o, name, value⟩

theorem State.stored_next {s : State} {stmts : List Stmt} {locals : Locals} {v : Value}
    (h : (State.start s.store stmts locals).Stored v) : s.Stored v := by
  rcases State.stored_start h with ⟨frame, name, value⟩ | ⟨o, name, value⟩
  · exact .bound frame name value
  · exact .field o name value

/-- Nothing is kept when a session begins. -/
theorem State.not_stored_first {stmts : List Stmt} {locals : Locals} {v : Value} :
    ¬ (State.start Store.empty stmts locals).Stored v := by
  intro h
  rcases State.stored_start h with ⟨frame, name, value⟩ | ⟨o, name, value⟩
  · rcases Frames.lookup_push value with h | ⟨-, h⟩
    · simp [Frames.lookup, Frames.frame?] at h
    · cases h
  · simp [Store.field?, Store.empty] at value

end Courses

end Wandika
