import Wandika.Proofs.Machine.CallDepth
import Wandika.Proofs.Machine.Preservation

/-!
# What a step does to the store

Every step changes the store in one of a few ways, and each of them comes from one sort of code.

* `State.ready?`: the call whose callee and arguments have all been evaluated;
* `State.Effect`, `State.effect_step`: the ways in which a step changes the store;
* `State.nextId_step`: identities are never given back;
* `State.lookup_step`, `State.Puts`: how the bindings of frames come about;
* `State.field?_step`: how the fields of objects come about.
-/

namespace Wandika

theorem Frames.lookup_define_of_ne {α : Type} {fs : Frames α} {frame other : FrameId}
    {name x : String} {value : α} (h : ¬ (other = frame ∧ x = name)) :
    (fs.define frame name value).lookup other x = fs.lookup other x := by
  rw [Frames.lookup, Frames.lookup, Frames.frame?_define]
  cases fs.frame? other with
  | none => rfl
  | some f =>
    by_cases hframe : other = frame
    · have hname : x ≠ name := fun e => h ⟨hframe, e⟩
      simp [hframe, Bindings.get?_put_of_ne _ _ hname]
    · simp [hframe]

theorem Frames.lookup_define_of_isSome {α : Type} {fs : Frames α} {frame : FrameId} {name : String}
    {value : α} (h : ((fs.define frame name value).lookup frame name).isSome) :
    (fs.define frame name value).lookup frame name = some value := by
  have hlt := Frames.lt_of_lookup h
  rw [Frames.size_define] at hlt
  simp [Frames.lookup_define fs hlt]

theorem Frames.lookup_define_cases {α : Type} {fs : Frames α} {frame other : FrameId}
    {name x : String} {value v : α} (h : (fs.define frame name value).lookup other x = some v) :
    (other = frame ∧ x = name ∧ v = value) ∨ fs.lookup other x = some v := by
  by_cases hplace : other = frame ∧ x = name
  · obtain ⟨rfl, rfl⟩ := hplace
    rw [Frames.lookup_define_of_isSome (by rw [h]; rfl)] at h
    exact Or.inl ⟨rfl, rfl, (Option.some.inj h).symm⟩
  · rw [Frames.lookup_define_of_ne hplace] at h
    exact Or.inr h

namespace State

/-- The call that is made next, whether its number of arguments is accepted or not. -/
def ready? (s : State) : Option Call :=
  match s.control, s.stack with
  | .value v, k :: _ => k.call? v
  | _, _ => none

/-- The function that a function statement makes. -/
def created (s : State) (decl : FunDecl) : Closure :=
  ⟨s.store.nextId, decl, s.registers.frame, s.registers.locals⟩

/-- What a function statement binds its name to. -/
def declared (s : State) (decl : FunDecl) : Value :=
  Store.joined (s.store.frames.lookup s.registers.frame decl.name.lexeme) (s.created decl)
    (s.store.nextId + 1)

/-- What a step does to the store: it opens a block, declares a class or a function, binds a
variable, assigns to one, begins a call, makes an object, sets a field, or changes nothing. -/
inductive Effect (mode : Mode) (s : State) : Store → Prop
  | keeps : Effect mode s s.store
  | opens (body : List Stmt) (control : s.control = .exec (.block body)) :
      Effect mode s (s.store.pushFrame { enclosing := some s.registers.frame })
  | declaresClass (name : Token) (methods : List FunDecl)
      (control : s.control = .exec (.classDecl name methods)) :
      Effect mode s (s.store.declareClass s.registers.frame name.lexeme)
  | declaresFunction (decl : FunDecl) (control : s.control = .exec (.function decl)) :
      Effect mode s (s.store.declareFunction s.registers.frame decl s.registers.locals)
  | bindsNil (name : Token) (control : s.control = .exec (.varDecl name none)) :
      Effect mode s (s.store.define s.registers.frame name.lexeme .nil)
  | binds (name : Token) (v : Value) (control : s.control = .value v)
      (stack : s.stack.head? = some (.varDecl name)) :
      Effect mode s (s.store.define s.registers.frame name.lexeme v)
  | assigns (id : Int) (name : Token) (v : Value) (frame : FrameId) (control : s.control = .value v)
      (stack : s.stack.head? = some (.assign id name)) (holder : s.holder? id name = some frame) :
      Effect mode s (s.store.define frame name.lexeme v)
  | enters (c : Call) (f : Closure) (ready : s.ready? = some c)
      (target : s.target? mode c.callee c.args.length = some f) :
      Effect mode s (s.store.pushFrame ⟨some f.frame, bindParams f.decl.params c.args⟩)
  | makes (c : Class) : Effect mode s (s.store.newObject c).2
  | sets (name : Token) (owner : Object) (v : Value) (control : s.control = .value v)
      (stack : s.stack.head? = some (.fieldValue name owner)) :
      Effect mode s (s.store.setField owner name.lexeme v)

section Steps

variable {mode : Mode} {s : State}

theorem store_evalStep (s : State) (e : Expr) : (s.evalStep e).store = s.store := by
  cases e with
  | literal value => cases value <;> rfl
  | «variable» id name =>
    simp only [evalStep]
    cases s.valueOf? id name <;> rfl
  | _ => rfl

theorem effect_execStep {x : Stmt} (h : s.control = .exec x) :
    Effect mode s (s.execStep x).store := by
  cases x with
  | block body => exact .opens body h
  | classDecl name methods => exact .declaresClass name methods h
  | function decl => exact .declaresFunction decl h
  | ret keyword value => cases value <;> exact .keeps
  | varDecl name init =>
    cases init with
    | none => exact .bindsNil name h
    | some init => exact .keeps
  | _ => exact .keeps

theorem store_yield (s : State) (x : Except RuntimeError Value) : (s.yield x).store = s.store := by
  cases x <;> rfl

theorem store_doneStep (s : State) (c : Completion) (k : Pending) :
    (s.doneStep c k).store = s.store := by
  cases k with
  | loopBody cond body => cases c <;> rfl
  | sequence rest => cases c <;> cases rest <;> rfl
  | leaveCall saved => cases c <;> rfl
  | _ => rfl

theorem store_raiseStep (s : State) (e : RuntimeError) (k : Pending) :
    (s.raiseStep e k).store = s.store := by
  cases k <;> rfl

end Steps

section ValueSteps

variable {mode : Mode} {v : Value} {k : Pending} {ks : List Pending} {registers : Registers}
  {store : Store} {output : List Output}

theorem effect_call {c : Call} (h : k.call? v = some c) :
    Effect mode ⟨.value v, k :: ks, registers, store, output⟩
      (State.call mode ⟨.value v, ks, registers, store, output⟩ c.paren c.callee c.args).store := by
  have hcall : Calls mode _ c.callee c.args
    (State.call mode ⟨.value v, ks, registers, store, output⟩ c.paren c.callee c.args) := calls_call
  generalize State.call mode ⟨.value v, ks, registers, store, output⟩ c.paren c.callee c.args = t
    at hcall ⊢
  cases hcall with
  | @runs f mem arity target => exact .enters c f h target
  | makes cls => exact .makes cls
  | fails => exact .keeps

theorem effect_valueStep :
    Effect mode ⟨.value v, k :: ks, registers, store, output⟩
      (State.valueStep mode ⟨.value v, ks, registers, store, output⟩ v k).store := by
  cases hcall : k.call? v with
  | some c =>
    rw [valueStep_of_call? hcall]
    exact effect_call hcall
  | none =>
    cases k with
    | assign id name =>
      simp only [valueStep]
      split
      · rename_i frame hholder
        exact .assigns id name v frame rfl rfl hholder
      · exact .keeps
    | binary op lhs => rw [valueStep, store_yield]; exact .keeps
    | callee paren args =>
      cases args with
      | nil => cases hcall
      | cons arg args => exact .keeps
    | argument paren callee before after =>
      cases after with
      | nil => cases hcall
      | cons arg args => exact .keeps
    | property name =>
      simp only [valueStep]
      split
      · split <;> exact .keeps
      · exact .keeps
    | logical op rhs =>
      simp only [valueStep]
      split <;> exact .keeps
    | fieldOwner name value =>
      simp only [valueStep]
      split <;> exact .keeps
    | fieldValue name owner => exact .sets name owner v rfl rfl
    | choose yes no =>
      simp only [valueStep]
      cases no <;> split_ifs <;> exact .keeps
    | unary op => rw [valueStep, store_yield]; exact .keeps
    | discard quiet =>
      simp only [valueStep]
      split_ifs <;> exact .keeps
    | branch yes no =>
      simp only [valueStep]
      cases no <;> split_ifs <;> exact .keeps
    | varDecl name => exact .binds name v rfl rfl
    | loopCondition cond body =>
      simp only [valueStep]
      split_ifs <;> exact .keeps
    | _ => exact .keeps

end ValueSteps

/-- No step changes the store in another way. -/
theorem effect_step (mode : Mode) (s : State) : s.Effect mode (s.step mode).store := by
  obtain ⟨control, stack, registers, store, output⟩ := s
  cases control with
  | eval e =>
    show Effect mode _ (evalStep _ e).store
    rw [store_evalStep]
    exact .keeps
  | exec x => exact effect_execStep rfl
  | value v =>
    cases stack with
    | nil => exact .keeps
    | cons k ks => exact effect_valueStep
  | done c =>
    cases stack with
    | nil => exact .keeps
    | cons k ks =>
      show Effect mode _ (doneStep _ c k).store
      rw [store_doneStep]
      exact .keeps
  | raise e =>
    cases stack with
    | nil => exact .keeps
    | cons k ks =>
      show Effect mode _ (raiseStep _ e k).store
      rw [store_raiseStep]
      exact .keeps

/-! ### Identities -/

theorem nextId_step (mode : Mode) (s : State) : s.store.nextId ≤ (s.step mode).store.nextId := by
  have h := effect_step mode s
  generalize (s.step mode).store = store at h ⊢
  cases h with
  | declaresClass name => exact Nat.le_add_right _ 1
  | declaresFunction decl => exact Nat.le_add_right _ 2
  | _ => exact Nat.le_refl _

/-! ### Bindings -/

/-- The next step binds the name in the frame to the value, by something else than a function
statement: by a class or a variable declaration, by an assignment, or as a parameter of a call. -/
inductive Puts (mode : Mode) (s : State) (frame : FrameId) (name : String) (v : Value) : Prop
  | cls (token : Token) (methods : List FunDecl) (lexeme : token.lexeme = name)
      (control : s.control = .exec (.classDecl token methods))
      (frame_eq : s.registers.frame = frame) (value : v = .datum (.cls ⟨s.store.nextId, name⟩))
  | nil (token : Token) (lexeme : token.lexeme = name)
      (control : s.control = .exec (.varDecl token none)) (frame_eq : s.registers.frame = frame)
      (value : v = .nil)
  | var (token : Token) (lexeme : token.lexeme = name) (control : s.control = .value v)
      (stack : s.stack.head? = some (.varDecl token)) (frame_eq : s.registers.frame = frame)
  | assign (id : Int) (token : Token) (lexeme : token.lexeme = name)
      (control : s.control = .value v)
      (stack : s.stack.head? = some (.assign id token)) (holder : s.holder? id token = some frame)
  | param (c : Call) (f : Closure) (ready : s.ready? = some c)
      (target : s.target? mode c.callee c.args.length = some f)
      (frame_eq : s.store.frames.size = frame)
      (bound : (bindParams f.decl.params c.args).get? name = some v)

/-- The next step runs a function statement for the name in the frame. -/
def Declares (s : State) (frame : FrameId) (name : String) (decl : FunDecl) : Prop :=
  s.control = .exec (.function decl) ∧ s.registers.frame = frame ∧ decl.name.lexeme = name

section Bindings

variable {mode : Mode} {s : State} {frame : FrameId} {name : String} {v w : Value}

/-- A binding after a step was there before, or the step has made it. -/
theorem lookup_step (h : (s.step mode).store.frames.lookup frame name = some v) :
    s.store.frames.lookup frame name = some v ∨ s.Puts mode frame name v ∨
      ∃ decl, s.Declares frame name decl ∧ v = s.declared decl := by
  have heffect := effect_step mode s
  generalize (s.step mode).store = store at heffect h
  cases heffect with
  | keeps => exact Or.inl h
  | opens body control =>
    rcases Frames.lookup_push h with h | ⟨-, h⟩
    · exact Or.inl h
    · cases h
  | declaresClass token methods control =>
    rcases Frames.lookup_define_cases h with ⟨rfl, rfl, rfl⟩ | h
    · exact Or.inr (Or.inl (.cls token methods rfl control rfl rfl))
    · exact Or.inl h
  | declaresFunction decl control =>
    rcases Frames.lookup_define_cases h with ⟨rfl, rfl, rfl⟩ | h
    · exact Or.inr (Or.inr ⟨decl, ⟨control, rfl, rfl⟩, rfl⟩)
    · exact Or.inl h
  | bindsNil token control =>
    rcases Frames.lookup_define_cases h with ⟨rfl, rfl, rfl⟩ | h
    · exact Or.inr (Or.inl (.nil token rfl control rfl rfl))
    · exact Or.inl h
  | binds token w control stack =>
    rcases Frames.lookup_define_cases h with ⟨rfl, rfl, rfl⟩ | h
    · exact Or.inr (Or.inl (.var token rfl control stack rfl))
    · exact Or.inl h
  | assigns id token w holder control stack hholder =>
    rcases Frames.lookup_define_cases h with ⟨rfl, rfl, rfl⟩ | h
    · exact Or.inr (Or.inl (.assign id token rfl control stack hholder))
    · exact Or.inl h
  | enters c f ready target =>
    rcases Frames.lookup_push h with h | ⟨hframe, h⟩
    · exact Or.inl h
    · exact Or.inr (Or.inl (.param c f ready target hframe.symm h))
  | makes c => exact Or.inl h
  | sets token owner w control stack => exact Or.inl h

/-- A function statement binds its name, if the frame is there. -/
theorem lookup_of_declares {decl : FunDecl} (hd : s.Declares frame name decl)
    (h : ((s.step mode).store.frames.lookup frame name).isSome) :
    (s.step mode).store.frames.lookup frame name = some (s.declared decl) := by
  obtain ⟨control, stack, registers, store, output⟩ := s
  obtain ⟨rfl, rfl, rfl⟩ := hd
  exact Frames.lookup_define_of_isSome h

/-- The next step of a state with a call that is ready makes the call. -/
theorem step_of_ready {c : Call} (h : s.ready? = some c) :
    s.step mode = State.call mode { s with stack := s.stack.tail } c.paren c.callee c.args := by
  obtain ⟨control, stack, registers, store, output⟩ := s
  cases control with
  | value x =>
    cases stack with
    | nil => cases h
    | cons k ks => exact valueStep_of_call? h
  | _ => cases h

theorem store_of_target {c : Call} {f : Closure} (h : s.ready? = some c)
    (target : s.target? mode c.callee c.args.length = some f) :
    (s.step mode).store = s.store.pushFrame ⟨some f.frame, bindParams f.decl.params c.args⟩ := by
  rw [step_of_ready h]
  have hcall : Calls mode { s with stack := s.stack.tail } c.callee c.args
    (State.call mode { s with stack := s.stack.tail } c.paren c.callee c.args) := calls_call
  generalize State.call mode { s with stack := s.stack.tail } c.paren c.callee c.args = t
    at hcall ⊢
  have htarget : State.target? mode { s with stack := s.stack.tail } c.callee c.args.length =
    some f := target
  cases hcall with
  | runs mem arity target' =>
    rw [htarget] at target'
    cases target'
    rfl
  | makes cls target' =>
    rw [htarget] at target'
    cases target'
  | fails e target' =>
    rw [htarget] at target'
    cases target'

/-- What is put into a frame stands there after the step, if the frame is there. -/
theorem lookup_of_puts (hp : s.Puts mode frame name w)
    (h : ((s.step mode).store.frames.lookup frame name).isSome) :
    (s.step mode).store.frames.lookup frame name = some w := by
  cases hp with
  | param c f ready target frame_eq bound =>
    rw [store_of_target ready target]
    subst frame_eq
    exact (Frames.lookup_push_size name).trans bound
  | cls token methods lexeme control frame_eq value =>
    obtain ⟨_, stack, registers, store, output⟩ := s
    subst lexeme control frame_eq value
    exact Frames.lookup_define_of_isSome h
  | nil token lexeme control frame_eq value =>
    obtain ⟨_, stack, registers, store, output⟩ := s
    subst lexeme control frame_eq value
    exact Frames.lookup_define_of_isSome h
  | var token lexeme control waiting frame_eq =>
    obtain ⟨_, stack, registers, store, output⟩ := s
    obtain ⟨ks, rfl⟩ := List.head?_eq_some_iff.1 waiting
    subst lexeme control frame_eq
    exact Frames.lookup_define_of_isSome h
  | assign id token lexeme control waiting holder =>
    obtain ⟨_, stack, registers, store, output⟩ := s
    obtain ⟨ks, rfl⟩ := List.head?_eq_some_iff.1 waiting
    subst lexeme control
    have hholder : holder? ⟨.value w, ks, registers, store, output⟩ id token = some frame := holder
    simp only [step, valueStep, hholder] at h ⊢
    exact Frames.lookup_define_of_isSome h

/-- A binding after a step was made by the step, or it was there before and the step has not
touched it. -/
theorem lookup_step_cases (h : (s.step mode).store.frames.lookup frame name = some v) :
    s.Puts mode frame name v ∨ (∃ decl, s.Declares frame name decl ∧ v = s.declared decl) ∨
      (s.store.frames.lookup frame name = some v ∧ ∀ w, ¬ s.Puts mode frame name w) := by
  by_cases hp : ∃ w, s.Puts mode frame name w
  · obtain ⟨w, hw⟩ := hp
    have hlookup := lookup_of_puts hw (by rw [h]; rfl)
    rw [h] at hlookup
    cases hlookup
    exact Or.inl hw
  · rcases lookup_step h with h | hput | hdecl
    · exact Or.inr (Or.inr ⟨h, not_exists.1 hp⟩)
    · exact Or.inl hput
    · exact Or.inr (Or.inl hdecl)

end Bindings

/-! ### Fields -/

/-- A field after a step was there before, or the step has set it. -/
theorem field?_step {mode : Mode} {s : State} {o : Object} {name : String} {v : Value}
    (h : (s.step mode).store.field? o name = some v) :
    s.store.field? o name = some v ∨ s.control = .value v := by
  have heffect := effect_step mode s
  generalize (s.step mode).store = store at heffect h
  cases heffect with
  | makes c => exact Or.inl (Store.field?_newObject h)
  | sets token owner w control stack =>
    rcases Store.field?_setField h with rfl | h
    · exact Or.inr control
    · exact Or.inl h
  | _ => exact Or.inl h

/-! ### Calls in progress -/

section Calls

variable {mode : Mode} {s : State}

/-- Only a call that is ready can be one more call in progress. The mode matters to calls only, so
a step that begins none is also a step of the machine that allows no calls. -/
theorem ready_of_calls_lt (h : s.calls < (s.step mode).calls) : ∃ c, s.ready? = some c := by
  cases hattempt : s.attempt? with
  | some c =>
    obtain ⟨control, stack, registers, store, output⟩ := s
    cases control with
    | value v =>
      cases stack with
      | nil => cases hattempt
      | cons k ks => exact ⟨c, (Option.filter_eq_some_iff.1 hattempt).1⟩
    | _ => cases hattempt
  | none =>
    -- where no call is allowed, the case that enters a function contradicts the limit
    let closed : Mode := { mode with maxDepth := some 0 }
    have hopen : s.step mode = s.step mode.unlimited := step_unlimited (Or.inl hattempt)
    have hclosed : s.step closed = s.step mode.unlimited := step_unlimited (Or.inl hattempt)
    have hshift := shift_step closed s
    rw [hclosed, ← hopen] at hshift
    rw [calls_eq, calls_eq] at h
    cases hshift with
    | works marks registers =>
      rw [marks] at h
      exact absurd h (Nat.lt_irrefl _)
    | opens frame marks registers =>
      rw [marks, List.countP_cons_of_neg (by simp [Pending.isCall])] at h
      exact absurd h (Nat.lt_irrefl _)
    | enters frame locals marks registers limit => cases limit
    | leavesBlock frame marks registers =>
      rw [marks, List.countP_cons_of_neg (by simp [Pending.isCall])] at h
      exact absurd h (Nat.lt_irrefl _)
    | leavesCall marks =>
      rw [marks, List.countP_cons_of_pos rfl] at h
      omega

/-- The work that a call which is ready takes from the stack is no call in progress. -/
theorem calls_of_ready {c : Call} (h : s.ready? = some c) :
    calls { s with stack := s.stack.tail } = s.calls := by
  obtain ⟨control, stack, registers, store, output⟩ := s
  cases control with
  | value v =>
    cases stack with
    | nil => cases h
    | cons k ks =>
      cases k with
      | callee | argument => rfl
      | _ => cases h
  | _ => cases h

end Calls

end State

end Wandika
