import Wandika.Proofs.Machine.Extent
import Wandika.Proofs.Machine.Trail

/-!
# What code ends in

Expressions end in a value and statements in a completion, unless they end in an error; and a
statement without a return of its own never ends with one, whatever it calls.

* `Ending`: what a piece of code is expected to end in;
* `Control.EndsIn`, `Pending.Leads`: what the work at hand ends in, and what work that waits makes
  of an outcome;
* `State.EndsIn.step`: what a state ends in stays the same with every step;
* `State.Finishes.of_eval`, `State.Finishes.of_exec`, `State.Finishes.of_returns`: the outcomes of
  expressions, of statements, and of statements without a return.
-/

namespace Wandika

/-- What a piece of code is expected to end in, unless it ends in an error: a value, the next
statement, or any completion. -/
inductive Ending
  | value
  | next
  | completion
  deriving DecidableEq

/-- A statement fits where the ending is expected: one that may return fits only where any
completion is. -/
def Ending.Admits : Ending → Stmt → Prop
  | .value, _ => False
  | .next, s => s.returns = false
  | .completion, _ => True

namespace Ending.Admits

variable {a : Ending}

/-- Where a statement is expected, no value is. -/
theorem ne_value {x : Stmt} (h : a.Admits x) : a ≠ .value := by
  rintro rfl
  exact h

theorem block {body : List Stmt} (h : a.Admits (.block body)) : ∀ x ∈ body, a.Admits x := by
  cases a with
  | value => exact h.elim
  | next =>
    have hany : Stmt.anyReturns body = false := h
    rw [Stmt.anyReturns_eq, List.any_eq_false] at hany
    intro x hx
    show x.returns = false
    simpa using hany x hx
  | completion => exact fun _ _ => trivial

theorem branch {cond : Expr} {yes : Stmt} {no : Option Stmt} (h : a.Admits (.branch cond yes no)) :
    a.Admits yes ∧ ∀ x ∈ no, a.Admits x := by
  cases a with
  | value => exact h.elim
  | next =>
    cases no with
    | none => exact ⟨h, by simp⟩
    | some no =>
      have hor : (yes.returns || no.returns) = false := h
      rw [Bool.or_eq_false_iff] at hor
      refine ⟨hor.1, ?_⟩
      rintro _ ⟨⟩
      exact hor.2
  | completion => exact ⟨trivial, fun _ _ => trivial⟩

theorem loop {cond : Expr} {body : Stmt} (h : a.Admits (.loop cond body)) : a.Admits body := by
  cases a with
  | value => exact h
  | next => exact h
  | completion => trivial

/-- A return is expected only where any completion is. -/
theorem eq_completion {keyword : Option Token} {value : Option Expr}
    (h : a.Admits (.ret keyword value)) : a = .completion := by
  cases a with
  | value => exact h.elim
  | next =>
    have hreturns : (Stmt.ret keyword value).returns = false := h
    simp [Stmt.returns] at hreturns
  | completion => rfl

end Ending.Admits

/-- What the work at hand ends in. -/
inductive Control.EndsIn : Control → Ending → Prop
  | eval {e : Expr} : EndsIn (.eval e) .value
  | exec {s : Stmt} {a : Ending} (h : a.Admits s) : EndsIn (.exec s) a
  | value {v : Value} : EndsIn (.value v) .value
  | next {a : Ending} (h : a ≠ .value) : EndsIn (.done .next) a
  | returned {v : Value} : EndsIn (.done (.returned v)) .completion
  | raise {e : RuntimeError} {a : Ending} : EndsIn (.raise e) a

/-- Whether work that waits belongs to an expression. -/
def Pending.isOperand : Pending → Bool
  | .assign _ _ | .rightOperand _ _ | .binary _ _ | .callee _ _ | .argument _ _ _ _ | .property _
  | .logical _ _ | .fieldOwner _ _ | .fieldValue _ _ | .choose _ _ | .unary _ => true
  | _ => false

/-- What work that waits for one ending leads to. -/
inductive Pending.Leads : Pending → Ending → Ending → Prop
  | operand {k : Pending} (h : k.isOperand = true) : Leads k .value .value
  | discard {quiet : Bool} {a : Ending} (ha : a ≠ .value) : Leads (.discard quiet) .value a
  | branch {yes : Stmt} {no : Option Stmt} {a : Ending} (ha : a ≠ .value) (hyes : a.Admits yes)
      (hno : ∀ s ∈ no, a.Admits s) : Leads (.branch yes no) .value a
  | print {a : Ending} (ha : a ≠ .value) : Leads .print .value a
  | ret : Leads .ret .value .completion
  | varDecl {name : Token} {a : Ending} (ha : a ≠ .value) : Leads (.varDecl name) .value a
  | loopCondition {cond : Expr} {body : Stmt} {a : Ending} (ha : a ≠ .value) (h : a.Admits body) :
      Leads (.loopCondition cond body) .value a
  | loopBody {cond : Expr} {body : Stmt} {a : Ending} (ha : a ≠ .value) (h : a.Admits body) :
      Leads (.loopBody cond body) a a
  | sequence {rest : List Stmt} {a : Ending} (ha : a ≠ .value) (h : ∀ s ∈ rest, a.Admits s) :
      Leads (.sequence rest) a a
  | leaveBlock {frame : FrameId} {a : Ending} (ha : a ≠ .value) : Leads (.leaveBlock frame) a a
  | leaveCall {registers : Registers} : Leads (.leaveCall registers) .completion .value

/-- What all that waits leads to. -/
inductive Leads : List Pending → Ending → Ending → Prop
  | nil {a : Ending} : Leads [] a a
  | cons {k : Pending} {ks : List Pending} {a b c : Ending} (h : k.Leads a b)
      (hs : Leads ks b c) : Leads (k :: ks) a c

namespace State

/-- What a state ends in, when everything that waits is done. -/
def EndsIn (s : State) (b : Ending) : Prop :=
  ∃ a, s.control.EndsIn a ∧ Leads s.stack a b

variable {mode : Mode} {s : State} {a b c : Ending}

namespace EndsIn

theorem goto (h : Leads s.stack a b) {x : Control} (hx : x.EndsIn a) : (s.goto x).EndsIn b :=
  ⟨a, hx, h⟩

theorem push (h : Leads s.stack a b) {x : Control} {k : Pending} (hx : x.EndsIn c)
    (hk : k.Leads c a) : (s.push x k).EndsIn b :=
  ⟨c, hx, .cons hk h⟩

theorem fail (h : Leads s.stack a b) (token : Option Token) (cause : RuntimeCause) :
    (s.fail token cause).EndsIn b :=
  goto h .raise

theorem yield (h : Leads s.stack .value b) (x : Except RuntimeError Value) :
    (s.yield x).EndsIn b := by
  cases x with
  | ok v => exact goto h .value
  | error e => exact goto h .raise

/-- A call leads to a value; what its body returns is kept inside it. -/
theorem call (h : Leads s.stack .value b) (paren : Option Token) (callee : Value)
    (args : List Value) : (s.call mode paren callee args).EndsIn b := by
  have hcall : Calls mode s callee args (s.call mode paren callee args) := calls_call
  generalize s.call mode paren callee args = t at hcall ⊢
  cases hcall with
  | runs =>
    have hany : Ending.completion ≠ .value := by decide
    exact ⟨.completion, .next hany,
      .cons (.sequence hany fun _ _ => trivial) (.cons .leaveCall h)⟩
  | makes c => exact ⟨.value, .value, h⟩
  | fails e => exact goto h .raise

/-! ### Steps -/

theorem evalStep (h : Leads s.stack .value b) (e : Expr) : (s.evalStep e).EndsIn b := by
  cases e with
  | group inner => exact goto h .eval
  | literal value => cases value <;> exact goto h .value
  | «variable» id name =>
    simp only [State.evalStep]
    cases s.valueOf? id name with
    | some v => exact goto h .value
    | none => exact fail h _ _
  | _ => exact push h .eval (.operand rfl)

theorem execStep (h : Leads s.stack a b) {x : Stmt} (hx : a.Admits x) :
    (s.execStep x).EndsIn b := by
  have ha := hx.ne_value
  cases x with
  | block body =>
    exact ⟨a, .next ha, .cons (.sequence ha hx.block) (.cons (.leaveBlock ha) h)⟩
  | classDecl name methods => exact ⟨a, .next ha, h⟩
  | expr value => exact push h .eval (.discard ha)
  | function decl => exact ⟨a, .next ha, h⟩
  | branch cond yes no =>
    obtain ⟨hyes, hno⟩ := hx.branch
    exact push h .eval (.branch ha hyes hno)
  | print value => exact push h .eval (.print ha)
  | ret keyword value =>
    obtain rfl := hx.eq_completion
    cases value with
    | none => exact goto h .returned
    | some value => exact push h .eval .ret
  | varDecl name init =>
    cases init with
    | none => exact goto (s := s.define name .nil) h (.next ha)
    | some init => exact push h .eval (.varDecl ha)
  | loop cond body => exact push h .eval (.loopCondition ha hx.loop)

theorem operandStep (h : Leads s.stack .value b) (v : Value) {k : Pending}
    (hk : k.isOperand = true) : (s.valueStep mode v k).EndsIn b := by
  cases k with
  | assign id name =>
    simp only [State.valueStep]
    cases s.holder? id name with
    | some frame => exact ⟨.value, .value, h⟩
    | none => exact fail h _ _
  | rightOperand op rhs => exact push h .eval (.operand rfl)
  | binary op lhs => exact yield h _
  | callee paren args =>
    cases args with
    | nil => exact call h paren v []
    | cons arg args => exact push h .eval (.operand rfl)
  | argument paren callee before after =>
    cases after with
    | nil => exact call h paren callee (before ++ [v])
    | cons arg args => exact push h .eval (.operand rfl)
  | property name =>
    simp only [State.valueStep]
    split
    · split
      · exact goto h .value
      · exact fail h _ _
    · exact fail h _ _
  | logical op rhs =>
    simp only [State.valueStep]
    split
    · exact goto h .value
    · exact goto h .eval
    · exact goto h .raise
  | fieldOwner name value =>
    simp only [State.valueStep]
    split
    · exact push h .eval (.operand rfl)
    · exact fail h _ _
  | fieldValue name owner => exact ⟨.value, .value, h⟩
  | choose yes no =>
    simp only [State.valueStep]
    split_ifs
    · exact goto h .eval
    · cases no with
      | some e => exact goto h .eval
      | none => exact goto h .value
  | unary op => exact yield h _
  | _ => cases hk

theorem valueStep {k : Pending} (hk : k.Leads .value a) (h : Leads s.stack a b) (v : Value) :
    (s.valueStep mode v k).EndsIn b := by
  cases hk with
  | operand hk => exact operandStep h v hk
  | discard ha =>
    simp only [State.valueStep]
    split_ifs
    · exact goto (s := s.write _) h (.next ha)
    · exact goto h (.next ha)
  | @branch yes no _ ha hyes hno =>
    simp only [State.valueStep]
    split_ifs
    · exact goto h (.exec hyes)
    · cases no with
      | some no => exact goto h (.exec (hno no rfl))
      | none => exact goto h (.next ha)
  | print ha => exact goto (s := s.write _) h (.next ha)
  | ret => exact goto h .returned
  | varDecl ha => exact goto (s := s.define _ v) h (.next ha)
  | loopCondition ha hbody =>
    simp only [State.valueStep]
    split_ifs
    · exact push h (.exec hbody) (.loopBody ha hbody)
    · exact goto h (.next ha)
  | loopBody ha | sequence ha | leaveBlock ha => exact absurd rfl ha

theorem doneStep {x : Completion} (hx : (Control.done x).EndsIn a) {k : Pending}
    (hk : k.Leads a c) (h : Leads s.stack c b) : (s.doneStep x k).EndsIn b := by
  have hne : a ≠ .value := by
    cases hx with
    | next ha => exact ha
    | returned => decide
  cases hk with
  | operand | discard | branch | print | ret | varDecl | loopCondition => exact absurd rfl hne
  | loopBody ha hbody =>
    cases hx with
    | next => exact push h .eval (.loopCondition ha hbody)
    | returned => exact goto h .returned
  | @sequence rest _ ha hrest =>
    cases hx with
    | next =>
      cases rest with
      | nil => exact goto h (.next ha)
      | cons x rest =>
        rw [List.forall_mem_cons] at hrest
        exact push h (.exec hrest.1) (.sequence ha hrest.2)
    | returned => cases rest <;> exact goto h .returned
  | leaveBlock => exact ⟨_, hx, h⟩
  | leaveCall => cases x <;> exact ⟨.value, .value, h⟩

theorem raiseStep {k : Pending} (h : Leads s.stack a b) (e : RuntimeError) :
    (s.raiseStep e k).EndsIn b := by
  cases k <;> exact ⟨a, .raise, h⟩

/-- A step keeps what the state ends in. -/
theorem step (h : s.EndsIn b) : (s.step mode).EndsIn b := by
  obtain ⟨control, stack, registers, store, output⟩ := s
  obtain ⟨a, hcontrol, hstack⟩ := h
  dsimp only at hcontrol hstack
  cases control with
  | eval e =>
    cases hcontrol
    exact evalStep hstack e
  | exec x =>
    cases hcontrol with
    | exec hx => exact execStep hstack hx
  | value v =>
    cases hstack with
    | nil => exact ⟨_, hcontrol, .nil⟩
    | cons hk hs =>
      cases hcontrol
      exact valueStep hk hs v
  | done x =>
    cases hstack with
    | nil => exact ⟨_, hcontrol, .nil⟩
    | cons hk hs => exact doneStep hcontrol hk hs
  | raise e =>
    cases hstack with
    | nil => exact ⟨_, hcontrol, .nil⟩
    | cons hk hs => exact raiseStep hs e

theorem iterate (h : s.EndsIn b) (n : Nat) : ((State.step mode)^[n] s).EndsIn b := by
  induction n with
  | zero => exact h
  | succ n ih =>
    rw [Function.iterate_succ_apply']
    exact ih.step

end EndsIn

/-- The outcome of the work at hand is one that its ending allows. -/
theorem Finishes.endsIn {n : Nat} {t : State} (h : s.Finishes mode n t)
    (hs : s.control.EndsIn a) : t.control.EndsIn a := by
  obtain ⟨-, hhalted, rfl⟩ := finishes_iff.1 h
  have halone : s.alone.EndsIn a := ⟨a, hs, .nil⟩
  have hend : ((step mode)^[n] s.alone).EndsIn a := halone.iterate n
  obtain ⟨b, hcontrol, hstack⟩ := hend
  rw [(halted_iff.1 hhalted).2] at hstack
  cases hstack
  exact hcontrol

variable {n : Nat} {t : State} {e : Expr} {x : Stmt}

/-- An expression ends with a value or an error. -/
theorem Finishes.of_eval (h : s.Finishes mode n t) (hs : s.control = .eval e) :
    (∃ v, t.control = .value v) ∨ ∃ error, t.control = .raise error := by
  have hends := h.endsIn (a := .value) (hs ▸ .eval)
  have hout := h.outcome
  generalize t.control = y at hends hout ⊢
  cases hends with
  | eval => cases hout
  | exec => cases hout
  | value => exact .inl ⟨_, rfl⟩
  | next ha => exact absurd rfl ha
  | raise => exact .inr ⟨_, rfl⟩

/-- A statement ends with a completion or an error. -/
theorem Finishes.of_exec (h : s.Finishes mode n t) (hs : s.control = .exec x) :
    (∃ c, t.control = .done c) ∨ ∃ error, t.control = .raise error := by
  have hends := h.endsIn (a := .completion) (hs ▸ .exec trivial)
  have hout := h.outcome
  generalize t.control = y at hends hout ⊢
  cases hends with
  | exec => cases hout
  | next => exact .inl ⟨_, rfl⟩
  | returned => exact .inl ⟨_, rfl⟩
  | raise => exact .inr ⟨_, rfl⟩

/-- A statement without a return of its own ends with the next statement or an error. -/
theorem Finishes.of_returns (h : s.Finishes mode n t) (hs : s.control = .exec x)
    (hx : x.returns = false) :
    t.control = .done .next ∨ ∃ error, t.control = .raise error := by
  have hends := h.endsIn (a := .next) (hs ▸ .exec hx)
  have hout := h.outcome
  generalize t.control = y at hends hout ⊢
  cases hends with
  | exec => cases hout
  | next => exact .inl rfl
  | raise => exact .inr ⟨_, rfl⟩

end State

end Wandika
