import Wandika.Proofs.Machine.Chains
import Wandika.Proofs.Session.Units
import Wandika.Proofs.Tree.Sound

/-!
# Code that the machine can run

The machine runs nothing but what the parser has given, also when it runs a function of an earlier
unit. So it never falls back on its answers to other trees.

* `SourceUnit.sound`: the machine can run a unit;
* `RuntimeError.Sound`: an error names a token of the sources, and is none about an operator that is
  not known;
* `State.Sound`, `State.Sound.step`: the machine can run all code of a state, and the error that is
  raised is of this sort;
* `runtime_errors_located`: so it is throughout a session.
-/

namespace Wandika

/-- The machine can run a unit, and an error can only name a token of its text. -/
theorem SourceUnit.sound (u : SourceUnit) {known : Token → Prop}
    (h : ∀ t ∈ (scan u.source).tokens, known t) : Stmt.SoundAll known u.program.stmts := by
  obtain ⟨c₁, hfrom⟩ := u.fromText
  obtain ⟨-, hshaped, -⟩ := tree_of_parse hfrom.parsed
  exact Stmt.soundAll _ hshaped (Parser.marked_program hfrom.program_eq)
    fun t ht => h t (hfrom.mem_scan ht)

/-! ### Errors -/

/-- Whether a cause is that an operator is not known. -/
def RuntimeCause.isUnknown : RuntimeCause → Bool
  | .unknownBinary _ | .unknownLogical _ | .unknownUnary _ => true
  | _ => false

/-- The error names a known token, and is none about an operator that is not known. -/
def RuntimeError.Sound (known : Token → Prop) (e : RuntimeError) : Prop :=
  IsKnown known e.token ∧ e.cause.isUnknown = false

/-- The wordings about operators that are not known are told by how they begin. -/
theorem RuntimeCause.not_prefix_message {cause : RuntimeCause} (h : cause.isUnknown = false) :
    ¬ "Unknown".toList <+: cause.message.toList := by
  intro hbegins
  have htake : cause.message.toList.take 7 = "Unknown".toList :=
    (List.prefix_iff_eq_take.1 hbegins).symm
  cases cause with
  | unknownBinary | unknownLogical | unknownUnary => cases h
  | _ =>
    delta RuntimeCause.message at htake
    dsimp only at htake
    simp [String.toList_append] at htake

section Operators

variable {known : Token → Prop} {op : Token} {a b : Value} {e : RuntimeError}

theorem Token.Operates.kind_mem {levels : List Level} (h : op.Operates known levels) :
    op.kind ∈ levels.flatMap Level.operators := by
  obtain ⟨-, l, hl, hmem⟩ := h
  exact List.mem_flatMap.2 ⟨l, hl, hmem⟩

theorem sound_numbers (hop : known op) (h : numbers op a b = .error e) : e.Sound known := by
  unfold numbers at h
  split at h
  · cases h
  · cases h
    exact ⟨⟨op, rfl, hop⟩, rfl⟩
  · cases h
    exact ⟨⟨op, rfl, hop⟩, rfl⟩

theorem sound_arithmetic {x y : Float} (hop : known op)
    (hkind : op.kind ∈ [Kind.minus, .star, .slash, .percent, .caret])
    (h : arithmetic op x y = .error e) : e.Sound known := by
  unfold arithmetic at h
  split at h
  case h_3 | h_4 =>
    split_ifs at h
    cases h
    exact ⟨⟨op, rfl, hop⟩, rfl⟩
  case h_6 => simp_all
  all_goals cases h

/-- The machine applies all operators that the parser puts between two values. -/
theorem sound_applyBinary (hop : op.Operates known Level.binary)
    (h : applyBinary op a b = .error e) : e.Sound known := by
  have hkind := hop.kind_mem
  simp only [Level.binary, Level.operators, List.flatMap_cons, List.flatMap_nil,
    List.cons_append, List.nil_append] at hkind
  unfold applyBinary at h
  split at h
  case h_8 =>
    cases hn : numbers op a b with
    | error e' =>
      rw [hn] at h
      cases h
      exact sound_numbers hop.1 hn
    | ok xy =>
      rw [hn] at h
      exact sound_arithmetic hop.1 (by simp_all) h
  all_goals cases h

theorem sound_applyUnary (hop : known op) (hkind : op.kind ∈ [Kind.bang, .minus])
    (h : applyUnary op a = .error e) : e.Sound known := by
  unfold applyUnary at h
  split at h
  · cases h
  · split at h
    · cases h
    · cases h
      exact ⟨⟨op, rfl, hop⟩, rfl⟩
  · simp_all

theorem sound_decides (hop : op.Operates known Level.logical) (h : decides op a = .error e) :
    e.Sound known := by
  have hkind := hop.kind_mem
  simp only [Level.logical, Level.operators, List.flatMap_cons, List.flatMap_nil,
    List.cons_append, List.nil_append] at hkind
  unfold decides at h
  split at h
  · cases h
  · cases h
  · simp_all

end Operators

/-! ### States -/

section States

variable (known : Token → Prop)

/-- The machine can run the work at hand. -/
def Control.Sound : Control → Prop
  | .eval e => e.Sound known
  | .exec x => x.Sound known
  | .value _ | .done _ => True
  | .raise e => e.Sound known

/-- The machine can run the work that waits. -/
def Pending.Sound : Pending → Prop
  | .assign _ name | .property name => known name
  | .rightOperand op rhs => op.Operates known Level.binary ∧ rhs.Sound known
  | .binary op _ => op.Operates known Level.binary
  | .callee paren args | .argument paren _ _ args => IsKnown known paren ∧ Expr.SoundAll known args
  | .logical op rhs => op.Operates known Level.logical ∧ rhs.Sound known
  | .fieldOwner name value => known name ∧ value.Sound known
  | .choose yes no => yes.Sound known ∧ ∀ e ∈ no, e.Sound known
  | .unary op => known op ∧ op.kind ∈ [Kind.bang, .minus]
  | .branch yes no => yes.Sound known ∧ ∀ x ∈ no, x.Sound known
  | .loopCondition cond body | .loopBody cond body => cond.Sound known ∧ body.Sound known
  | .sequence rest => Stmt.SoundAll known rest
  | .fieldValue _ _ | .discard _ | .print | .ret | .varDecl _ | .leaveBlock _ | .leaveCall _ => True

/-- The machine can run the functions that the value holds. -/
def Value.Sound (v : Value) : Prop := ∀ f ∈ v.closures, Stmt.SoundAll known f.decl.body

namespace State

/-- The machine can run the work at hand and the work that waits. -/
structure Poised (s : State) : Prop where
  control : s.control.Sound known
  stack : ∀ k ∈ s.stack, k.Sound known

/-- The machine can run all code of the state. -/
structure Sound (s : State) : Prop extends s.Poised known where
  values : ∀ v, s.Stored v → v.Sound known

variable {known} {mode : Mode} {s : State}

section Steps

variable (hstack : ∀ k ∈ s.stack, k.Sound known)

include hstack

theorem Poised.push {control : Control} {k : Pending} (hcontrol : control.Sound known)
    (hk : k.Sound known) : (s.push control k).Poised known :=
  ⟨hcontrol, List.forall_mem_cons.2 ⟨hk, hstack⟩⟩

theorem Poised.fail {t? : Option Token} {cause : RuntimeCause} (ht : IsKnown known t?)
    (hcause : cause.isUnknown = false) : (s.fail t? cause).Poised known :=
  ⟨⟨ht, hcause⟩, hstack⟩

theorem Poised.yield {x : Except RuntimeError Value} (hx : ∀ e, x = .error e → e.Sound known) :
    (s.yield x).Poised known := by
  cases x with
  | ok v => exact ⟨trivial, hstack⟩
  | error e => exact ⟨hx e rfl, hstack⟩

theorem poised_enter {paren : Option Token} {f : Closure} {args : List Value}
    (hparen : IsKnown known paren) (hf : Stmt.SoundAll known f.decl.body) :
    (s.enter mode paren f args).Poised known := by
  unfold enter
  split_ifs
  · exact .fail hstack hparen rfl
  · exact ⟨trivial, List.forall_mem_cons.2 ⟨hf, List.forall_mem_cons.2 ⟨trivial, hstack⟩⟩⟩

theorem poised_call {paren : Option Token} {callee : Value} {args : List Value}
    (hparen : IsKnown known paren) (hcallee : callee.Sound known) :
    (s.call mode paren callee args).Poised known := by
  cases callee with
  | datum d =>
    cases d with
    | cls c =>
      simp only [call, construct]
      split_ifs
      · exact .fail hstack hparen rfl
      · exact ⟨trivial, hstack⟩
      · exact .fail hstack hparen rfl
    | _ => exact .fail hstack hparen rfl
  | function f =>
    simp only [call]
    split_ifs
    · exact poised_enter hstack hparen (hcallee f List.mem_cons_self)
    · exact .fail hstack hparen rfl
  | overloads o =>
    simp only [call]
    split
    · rename_i f hf
      exact poised_enter hstack hparen (hcallee f (List.mem_of_find?_eq_some hf))
    · exact .fail hstack hparen rfl

theorem poised_evalStep {e : Expr} (he : e.Sound known) : (s.evalStep e).Poised known := by
  cases e with
  | assign id name value => exact .push hstack he.2 he.1
  | binary op lhs rhs => exact .push hstack he.2.1 ⟨he.1, he.2.2⟩
  | call callee paren args => exact .push hstack he.2.1 ⟨he.1, he.2.2⟩
  | get object name => exact .push hstack he.2 he.1
  | group inner => exact ⟨he, hstack⟩
  | literal value => cases value <;> exact ⟨trivial, hstack⟩
  | logical op lhs rhs => exact .push hstack he.2.1 ⟨he.1, he.2.2⟩
  | set object name value => exact .push hstack he.2.1 ⟨he.1, he.2.2⟩
  | ternary cond question yes no =>
    cases no with
    | none => exact .push hstack he.1 ⟨he.2, by simp⟩
    | some no => exact .push hstack he.1 ⟨he.2.1, by simpa using he.2.2⟩
  | unary op operand => exact .push hstack he.2.2 ⟨he.1, he.2.1⟩
  | «variable» id name =>
    simp only [evalStep]
    cases s.valueOf? id name with
    | none => exact .fail hstack ⟨name, rfl, he⟩ rfl
    | some v => exact ⟨trivial, hstack⟩

theorem poised_execStep {x : Stmt} (hx : x.Sound known) : (s.execStep x).Poised known := by
  cases x with
  | block body =>
    exact ⟨trivial, List.forall_mem_cons.2 ⟨hx, List.forall_mem_cons.2 ⟨trivial, hstack⟩⟩⟩
  | classDecl | function => exact ⟨trivial, hstack⟩
  | expr value => exact .push hstack hx trivial
  | branch cond yes no =>
    cases no with
    | none => exact .push hstack hx.1 ⟨hx.2, by simp⟩
    | some no => exact .push hstack hx.1 ⟨hx.2.1, by simpa using hx.2.2⟩
  | print value => exact .push hstack hx trivial
  | ret keyword value =>
    cases value with
    | none => exact ⟨trivial, hstack⟩
    | some value => exact .push hstack hx trivial
  | varDecl name init =>
    cases init with
    | none => exact ⟨trivial, hstack⟩
    | some init => exact .push hstack hx trivial
  | loop cond body => exact .push hstack hx.1 hx

theorem poised_valueStep {v : Value} {k : Pending} (hk : k.Sound known) (hv : v.Sound known)
    (hvalues : ∀ w ∈ k.values, w.Sound known) : (s.valueStep mode v k).Poised known := by
  cases k with
  | assign id name =>
    simp only [valueStep]
    split
    · exact ⟨trivial, hstack⟩
    · exact .fail hstack ⟨name, rfl, hk⟩ rfl
  | rightOperand op rhs => exact .push hstack hk.2 hk.1
  | binary op lhs => exact .yield hstack fun e he => sound_applyBinary hk he
  | callee paren args =>
    cases args with
    | nil => exact poised_call hstack hk.1 hv
    | cons arg args => exact .push hstack hk.2.1 ⟨hk.1, hk.2.2⟩
  | argument paren callee before after =>
    cases after with
    | nil => exact poised_call hstack hk.1 (hvalues callee List.mem_cons_self)
    | cons arg args => exact .push hstack hk.2.1 ⟨hk.1, hk.2.2⟩
  | property name =>
    simp only [valueStep]
    split
    · split
      · exact ⟨trivial, hstack⟩
      · exact .fail hstack ⟨name, rfl, hk⟩ rfl
    · exact .fail hstack ⟨name, rfl, hk⟩ rfl
  | logical op rhs =>
    simp only [valueStep]
    split
    · exact ⟨trivial, hstack⟩
    · exact ⟨hk.2, hstack⟩
    · rename_i e he
      exact ⟨sound_decides hk.1 he, hstack⟩
  | fieldOwner name value =>
    simp only [valueStep]
    split
    · exact .push hstack hk.2 trivial
    · exact .fail hstack ⟨name, rfl, hk.1⟩ rfl
  | choose yes no =>
    simp only [valueStep]
    split_ifs
    · exact ⟨hk.1, hstack⟩
    · cases no with
      | none => exact ⟨trivial, hstack⟩
      | some no => exact ⟨hk.2 no rfl, hstack⟩
  | unary op => exact .yield hstack fun e he => sound_applyUnary hk.1 hk.2 he
  | discard quiet =>
    simp only [valueStep]
    split_ifs <;> exact ⟨trivial, hstack⟩
  | branch yes no =>
    simp only [valueStep]
    split_ifs
    · exact ⟨hk.1, hstack⟩
    · cases no with
      | none => exact ⟨trivial, hstack⟩
      | some no => exact ⟨hk.2 no rfl, hstack⟩
  | loopCondition cond body =>
    simp only [valueStep]
    split_ifs
    · exact .push hstack hk.2 hk
    · exact ⟨trivial, hstack⟩
  | fieldValue | print | ret | varDecl => exact ⟨trivial, hstack⟩
  | loopBody | sequence | leaveBlock | leaveCall => exact .push hstack trivial hk

theorem poised_doneStep {c : Completion} {k : Pending} (hk : k.Sound known) :
    (s.doneStep c k).Poised known := by
  cases k with
  | loopBody cond body =>
    cases c with
    | next => exact .push hstack hk.1 hk
    | returned v => exact ⟨trivial, hstack⟩
  | sequence rest =>
    cases c with
    | next =>
      cases rest with
      | nil => exact ⟨trivial, hstack⟩
      | cons x rest => exact .push hstack hk.1 hk.2
    | returned v => cases rest <;> exact ⟨trivial, hstack⟩
  | leaveBlock frame => exact ⟨trivial, hstack⟩
  | leaveCall registers => cases c <;> exact ⟨trivial, hstack⟩
  | _ => exact .push hstack trivial hk

theorem poised_raiseStep {e : RuntimeError} {k : Pending} (he : e.Sound known) :
    (s.raiseStep e k).Poised known := by
  cases k <;> exact ⟨he, hstack⟩

end Steps

namespace Sound

variable (h : s.Sound known)

include h

theorem poised_step : (s.step mode).Poised known := by
  obtain ⟨⟨hcontrol, hstack⟩, hvalues⟩ := h
  obtain ⟨control, stack, registers, store, output⟩ := s
  cases control with
  | eval e => exact poised_evalStep hstack hcontrol
  | exec x => exact poised_execStep hstack hcontrol
  | value v =>
    cases stack with
    | nil => exact ⟨hcontrol, hstack⟩
    | cons k ks =>
      obtain ⟨hk, hks⟩ := List.forall_mem_cons.1 hstack
      exact poised_valueStep hks hk (hvalues v (.control List.mem_cons_self))
        fun w hw => hvalues w (.stack k List.mem_cons_self hw)
  | done c =>
    cases stack with
    | nil => exact ⟨hcontrol, hstack⟩
    | cons k ks =>
      obtain ⟨hk, hks⟩ := List.forall_mem_cons.1 hstack
      exact poised_doneStep hks hk
  | raise e =>
    cases stack with
    | nil => exact ⟨hcontrol, hstack⟩
    | cons k ks => exact poised_raiseStep (List.forall_mem_cons.1 hstack).2 hcontrol

/-- The machine can still run all code after a step. -/
theorem step (mode : Mode) : (s.step mode).Sound known := by
  refine ⟨h.poised_step, fun v hv => ?_⟩
  rcases stored_step_cases hv with hold | hmakes
  · exact h.values v hold
  · -- the only code that is new in a value is the body of a function statement at hand
    intro f hf
    cases hmakes with
    | plain | literal | cls | object => cases hf
    | @function decl control =>
      rcases Store.mem_closures_joined hf with rfl | ⟨w, hw, hf⟩
      · have hdecl := h.control
        rw [control] at hdecl
        cases decl
        exact hdecl
      · exact h.values w (.bound _ _ hw) f hf

theorem next {stmts : List Stmt} (hstmts : Stmt.SoundAll known stmts) (locals : Locals) :
    (State.start s.store stmts locals).Sound known :=
  ⟨⟨trivial, List.forall_mem_singleton.2 hstmts⟩, fun v hv => h.values v (stored_next hv)⟩

end Sound

end State

end States

/-- The machine can run all code of a session, if the tokens of its sources are known. -/
theorem Moment.sound {mode : Mode} {us : List SourceUnit} {s : State} {t : Trail}
    (h : Moment mode us s t) {known : Token → Prop}
    (hknown : ∀ u ∈ us, ∀ token ∈ (scan u.source).tokens, known token) : s.Sound known := by
  -- what is known is fixed from the beginning, so nothing has to grow with the units
  induction h with
  | first u =>
    have hu := u.sound (hknown u List.mem_cons_self)
    exact ⟨⟨trivial, List.forall_mem_singleton.2 hu⟩, fun v hv => absurd hv State.not_stored_first⟩
  | step _ ih => exact (ih hknown).step mode
  | next _ _ u ih =>
    obtain ⟨hbefore, hu⟩ := List.forall_mem_append.1 hknown
    exact (ih hbefore).next (u.sound (hu u List.mem_cons_self)) u.locals

/-- Throughout a session of units, an error that is raised is never about an operator that the
machine does not know, and it names a token of one of the sources, so that its message has a place.
No literal without a value is evaluated, and an expression that is finished has given a value of the
language or an error. -/
theorem runtime_errors_located {mode : Mode} {us : List SourceUnit} {s : State} {t : Trail}
    (h : Moment mode us s t) :
    (∀ e, s.control = .raise e →
      ¬ "Unknown".toList <+: e.cause.message.toList ∧
      ∃ u ∈ us, ∃ token ∈ (scan u.source).tokens, e.token = some token ∧
        e.problem.text = token.pos.locate e.cause.message) ∧
    s.control ≠ .eval (.literal .absent) ∧
    ∀ e n final, s.control = .eval e → s.Finishes mode n final →
      (∃ v, final.control = .value v ∧ v.Proper) ∨ ∃ error, final.control = .raise error := by
  have hsound : s.Sound fun token => ∃ u ∈ us, token ∈ (scan u.source).tokens :=
    h.sound fun u hu token htoken => ⟨u, hu, htoken⟩
  refine ⟨fun e he => ?_, fun habsent => ?_, fun e n final he hfinishes => ?_⟩
  · have hraised := hsound.control
    rw [he] at hraised
    obtain ⟨⟨token, htoken, u, hu, hmem⟩, hcause⟩ := hraised
    refine ⟨RuntimeCause.not_prefix_message hcause, u, hu, token, hmem, htoken, ?_⟩
    rw [RuntimeError.problem, htoken]
    rfl
  · have hliteral := hsound.control
    rw [habsent] at hliteral
    cases hliteral
  · refine (hfinishes.of_eval he).imp_left ?_
    rintro ⟨v, hv⟩
    obtain ⟨past, hpast⟩ := h.course
    obtain ⟨past', hlater⟩ := hpast.iterate n
    rw [hfinishes.reaches] at hlater
    have hstored : final.Stored v := .control (by simp [hv, Control.values])
    exact ⟨v, hv, (hlater.rooted final List.mem_cons_self).proper v hstored⟩

/-- A unit calls a function of an earlier unit, which applies an operator to a wrong value. -/
theorem runtime_errors_located_across_units :
    ∃ u₁ u₂ s t e, SourceUnit.ofSource? "func f(a) \x7b return -a; \x7d".toList = some u₁ ∧
      SourceUnit.ofSource? "f(true);".toList = some u₂ ∧
      Moment {} [u₁, u₂] s t ∧ s.control = .raise e ∧ e.cause = .operandOfMinus ∧
      ∃ u ∈ [u₁, u₂], ∃ token ∈ (scan u.source).tokens, e.token = some token ∧
        e.problem.text = token.pos.locate "Operand of '-' must be a number." := by
  obtain ⟨u₁, u₂, s, t, e, h₁, h₂, hm, hcontrol, hcause⟩ : ∃ u₁ u₂ s t e,
      SourceUnit.ofSource? "func f(a) \x7b return -a; \x7d".toList = some u₁ ∧
      SourceUnit.ofSource? "f(true);".toList = some u₂ ∧
      Moment {} [u₁, u₂] s t ∧ s.control = .raise e ∧ e.cause = .operandOfMinus :=
    ⟨_, _, _, _, _, rfl, rfl, (((Moment.first _).iterate 3).next rfl _).iterate 12, rfl, rfl⟩
  obtain ⟨-, u, hu, token, hmem, htoken, htext⟩ := (runtime_errors_located hm).1 e hcontrol
  rw [hcause] at htext
  exact ⟨u₁, u₂, s, t, e, h₁, h₂, hm, hcontrol, hcause, u, hu, token, hmem, htoken, htext⟩

end Wandika
