import Wandika.Proofs.Machine.Moves
import Wandika.Proofs.Session.Rejection

/-!
# Echoed values

Whether the values of expression statements are echoed matters to what is written, and to nothing
else.

* `State.quietly`, `State.iterate_quietly`: without the texts that were echoed, a state is one that
  is reached when nothing is echoed;
* `State.EndsStatement`, `State.written?_eq_echoed_iff`: a text is echoed exactly when an expression
  statement ends that is no assignment;
* `echo_only_adds_lines`: sessions that echo and sessions that do not.
-/

namespace Wandika

/-- Whether a text was printed by a statement, and not echoed. -/
def Output.isPrinted : Output → Bool
  | .printed _ => true
  | .echoed _ => false

namespace State

/-! ### Without the echo -/

/-- The state without the texts that were echoed. -/
def quietly (s : State) : State :=
  { s with output := s.output.filter Output.isPrinted }

theorem halted_quietly (s : State) : s.quietly.halted = s.halted := rfl

theorem written?_quiet (maxDepth : Option Nat) (s : State) :
    s.written? ⟨false, maxDepth⟩ = (s.written? ⟨true, maxDepth⟩).filter Output.isPrinted := by
  obtain ⟨control, stack, registers, store, output⟩ := s
  cases control with
  | value v =>
    cases stack with
    | nil => rfl
    | cons k ks =>
      cases k with
      | discard quiet => cases quiet <;> rfl
      | _ => rfl
  | _ => rfl

theorem iterate_quietly (maxDepth : Option Nat) (s : State) (n : Nat) :
    (step ⟨false, maxDepth⟩)^[n] s.quietly = ((step ⟨true, maxDepth⟩)^[n] s).quietly := by
  have hdepth : (Mode.mk false maxDepth).maxDepth = (Mode.mk true maxDepth).maxDepth := rfl
  induction n with
  | zero => rfl
  | succ n ih =>
    rw [Function.iterate_succ_apply', Function.iterate_succ_apply', ih]
    generalize (step ⟨true, maxDepth⟩)^[n] s = t
    calc t.quietly.step ⟨false, maxDepth⟩
        = { t.step ⟨true, maxDepth⟩ with
            output :=
              (t.written? ⟨false, maxDepth⟩).toList ++ t.output.filter Output.isPrinted } :=
          step_telling hdepth t _
      _ = { t.step ⟨true, maxDepth⟩ with
            output :=
              ((t.written? ⟨true, maxDepth⟩).toList ++ t.output).filter Output.isPrinted } := by
          rw [written?_quiet, List.filter_append, Option.toList_filter]
      _ = (t.step ⟨true, maxDepth⟩).quietly := by rw [quietly, output_step]

/-- A run without the echo halts exactly if one with the echo does, and differs in what is written
only. -/
theorem run_quietly (maxDepth : Option Nat) (s : State) (fuel : Nat) :
    run ⟨false, maxDepth⟩ fuel s.quietly = (run ⟨true, maxDepth⟩ fuel s).map quietly := by
  rw [run_eq_ite, run_eq_ite, iterate_quietly, halted_quietly]
  split_ifs <;> rfl

/-! ### What is echoed -/

/-- After some steps, an expression statement whose expression is no assignment to a variable or a
field has evaluated its expression, to the value. -/
def EndsStatement (mode : Mode) (s : State) (n : Nat) (v : Value) : Prop :=
  ∃ m < n, ∃ e j, ((step mode)^[m] s).control = .exec (.expr e) ∧
    (∀ id name rhs, e ≠ .assign id name rhs) ∧ (∀ object name rhs, e ≠ .set object name rhs) ∧
    ((step mode)^[m + 1] s).Finishes mode j ((step mode)^[n] s) ∧
    ((step mode)^[n] s).control = .value v

theorem isQuiet_eq_false_iff {e : Expr} :
    isQuiet e = false ↔
      (∀ id name rhs, e ≠ .assign id name rhs) ∧ ∀ object name rhs, e ≠ .set object name rhs := by
  cases e <;> simp [isQuiet]

theorem eq_of_awaits_discard {c : Control} {e : Expr} {quiet : Bool}
    (h : c.awaits? = some (e, .discard quiet)) : c = .exec (.expr e) ∧ isQuiet e = quiet := by
  unfold Control.awaits? at h
  split at h <;> cases h
  exact ⟨rfl, rfl⟩

theorem of_written?_echoed {mode : Mode} {s : State} {text : String}
    (h : s.written? mode = some (.echoed text)) :
    ∃ v ks, s.control = .value v ∧ s.stack = .discard false :: ks ∧ text = v.render := by
  obtain ⟨control, stack, registers, store, output⟩ := s
  cases control with
  | value v =>
    cases stack with
    | nil => cases h
    | cons k ks =>
      cases k with
      | discard quiet =>
        have hwrites : (if mode.echo && !quiet then some (Output.echoed v.render) else none) =
          some (.echoed text) := h
        split_ifs at hwrites with hecho
        cases hwrites
        obtain rfl : quiet = false := by simpa using (Bool.and_eq_true_iff.1 hecho).2
        exact ⟨v, ks, rfl, rfl, rfl⟩
      | _ => cases h
  | _ => cases h

/-- A text is echoed exactly if it shows a value that such a statement has just given. -/
theorem written?_eq_echoed_iff {mode : Mode} (hmode : mode.echo = true) (store : Store)
    (stmts : List Stmt) (locals : Locals) (n : Nat) (text : String) :
    ((step mode)^[n] (start store stmts locals)).written? mode = some (.echoed text) ↔
      ∃ v, (start store stmts locals).EndsStatement mode n v ∧ text = v.render := by
  constructor
  · intro h
    obtain ⟨v, ks, hcontrol, hstack, rfl⟩ :=
      of_written?_echoed h
    obtain ⟨m, hm, e, j, hawaits, hfinishes⟩ := exists_origin rfl rfl
      (not_suffix_start rfl store stmts locals) hstack (by rw [hcontrol]; rfl)
    obtain ⟨hexec, hquiet⟩ := eq_of_awaits_discard hawaits
    obtain ⟨hassign, hset⟩ := isQuiet_eq_false_iff.1 hquiet
    exact ⟨v, ⟨m, hm, e, j, hexec, hassign, hset, hfinishes, hcontrol⟩, rfl⟩
  · rintro ⟨v, ⟨m, -, e, j, hexec, hassign, hset, hfinishes, hcontrol⟩, rfl⟩
    have hquiet := isQuiet_eq_false_iff.2 ⟨hassign, hset⟩
    have hawaits : ((step mode)^[m] (start store stmts locals)).control.awaits? =
        some (e, .discard false) := by rw [hexec, ← hquiet]; rfl
    have hstack := hfinishes.stack
    rw [Function.iterate_succ_apply', step_of_awaits? hawaits] at hstack
    rw [written?, hcontrol, hstack]
    show (if mode.echo && !false then _ else _) = _
    rw [hmode]
    rfl

end State

/-! ### Sessions -/

/-- The report without the lines that were echoed. -/
def UnitReport.quietly (report : UnitReport) : UnitReport :=
  { report with output := report.output.filter Output.isPrinted }

/-- The session with the echo on or off. -/
def Session.echoing (session : Session) (echo : Bool) : Session :=
  { session with mode := { session.mode with echo } }

/-- What a quiet session reports about a unit, next to one that echoes: the same but for the lines
that are echoed; and the sessions that are left differ in the echo only. -/
structure Hushes (quiet loud : UnitReport × Session) : Prop where
  report : quiet.1 = loud.1.quietly
  session : ∃ after : Session, quiet.2 = after.echoing false ∧ loud.2 = after.echoing true

namespace Session

variable (session : Session) (fuel : Nat)

theorem interpret_quiet (p : Program) (locals : Locals) :
    Option.Rel
      (fun quiet loud => quiet.1 = loud.1.filter Output.isPrinted ∧ quiet.2.1 = loud.2.1 ∧
        ∃ after : Session, quiet.2.2 = after.echoing false ∧ loud.2.2 = after.echoing true)
      ((session.echoing false).interpret fuel p locals)
      ((session.echoing true).interpret fuel p locals) := by
  obtain ⟨⟨echo, maxDepth⟩, printTree, store, flags⟩ := session
  have hrun : State.run ⟨false, maxDepth⟩ fuel (State.start store p.stmts locals) =
      (State.run ⟨true, maxDepth⟩ fuel (State.start store p.stmts locals)).map State.quietly :=
    State.run_quietly maxDepth (State.start store p.stmts locals) fuel
  simp only [interpret, echoing, hrun, Option.map_map]
  cases State.run ⟨true, maxDepth⟩ fuel (State.start store p.stmts locals) with
  | none => exact .none
  | some final =>
    refine .some ⟨List.filter_reverse.symm, rfl, ?_⟩
    exact ⟨⟨⟨echo, maxDepth⟩, printTree, final.store, _⟩, rfl, rfl⟩

theorem resolveAndRun_quiet (p : Program) (before : List Diagnostic) :
    Option.Rel Hushes ((session.echoing false).resolveAndRun fuel p before)
      ((session.echoing true).resolveAndRun fuel p before) := by
  unfold resolveAndRun
  -- the flags, and so all that is found before the run, do not depend on the echo
  let found : Session :=
    { session with flags := session.flags.recordAll (p.resolve.error?.map (·.problem)).toList }
  dsimp only [echoing]
  split_ifs with hflag
  · exact .some ⟨rfl, found, rfl, rfl⟩
  · refine rel_map (found.interpret_quiet fuel p p.resolve.locals) ?_
    rintro ⟨_, _, _⟩ ⟨output, error?, _⟩ ⟨houtput, herror, after, hquiet, hloud⟩
    dsimp only at houtput herror hquiet hloud
    subst houtput herror hquiet hloud
    exact ⟨rfl, after, rfl, rfl⟩

/-- The echo matters to no pass but the last. -/
theorem exec_quiet (source : List Char) :
    Option.Rel Hushes ((session.echoing false).exec fuel source)
      ((session.echoing true).exec fuel source) := by
  unfold exec
  let found : Session :=
    { session with flags := session.flags.recordAll ((scan source).errors.map (·.problem)) }
  dsimp only [echoing]
  by_cases hflag : (session.flags.recordAll ((scan source).errors.map (·.problem))).error = true
  · rw [if_pos hflag, if_pos hflag]
    exact .some ⟨rfl, found, rfl, rfl⟩
  · rw [if_neg hflag, if_neg hflag]
    split
    · rename_i e _
      exact .some ⟨rfl, { found with flags := found.flags.record e.problem }, rfl, rfl⟩
    · exact .none
    · split_ifs
      · exact .some ⟨rfl, found, rfl, rfl⟩
      · exact found.resolveAndRun_quiet fuel _ _

theorem units_quiet (sources : List (List Char)) :
    List.Forall₂ Hushes ((session.echoing false).units fuel sources)
      ((session.echoing true).units fuel sources) := by
  induction sources generalizing session with
  | nil => exact .nil
  | cons source sources ih =>
    have hexec := session.exec_quiet fuel source
    rw [units, units]
    generalize (session.echoing false).exec fuel source = x,
      (session.echoing true).exec fuel source = y at hexec ⊢
    cases hexec with
    | none => exact .nil
    | @some quiet loud h =>
      obtain ⟨after, hquiet, hloud⟩ := h.session
      obtain ⟨report, _⟩ := quiet
      obtain ⟨report', _⟩ := loud
      dsimp only at hquiet hloud
      subst hquiet hloud
      exact .cons h (ih after.reset)

/-- What a program wrote is what the steps of its run have written. -/
theorem output_interpret {p : Program} {locals : Locals} {output : List Output}
    {error? : Option RuntimeError} {after : Session}
    (h : session.interpret fuel p locals = some (output, error?, after)) :
    output = (List.range fuel).filterMap fun n =>
      ((State.step session.mode)^[n] (State.start session.store p.stmts locals)).written?
        session.mode := by
  obtain ⟨final, hrun, heq⟩ := Option.map_eq_some_iff.1 h
  obtain ⟨hreaches, -⟩ := State.run_eq_some_iff.1 hrun
  cases heq
  rw [← hreaches, State.output_iterate]
  rfl

end Session

/-- The echo only adds lines. Whatever the store and the sources, a session without the echo gives
up a unit exactly if one with the echo does, and else reports the same errors and warnings and
leaves the same store; it writes what the other one writes without the lines that are echoed, in
order. And of the lines that a program writes step by step, those are echoed that show the value of
an expression statement, which has just given it, and whose expression assigns neither to a variable
nor to a field. -/
theorem echo_only_adds_lines (session : Session) (fuel : Nat) :
    (∀ source, Option.Rel Hushes ((session.echoing false).exec fuel source)
      ((session.echoing true).exec fuel source)) ∧
    (∀ sources, List.Forall₂ Hushes ((session.echoing false).units fuel sources)
      ((session.echoing true).units fuel sources)) ∧
    ∀ (p : Program) (locals : Locals),
      let loud := (session.echoing true).mode
      let start := State.start session.store p.stmts locals
      (∀ output error? after,
        (session.echoing true).interpret fuel p locals = some (output, error?, after) →
        output = (List.range fuel).filterMap fun n =>
          ((State.step loud)^[n] start).written? loud) ∧
      ∀ n text, ((State.step loud)^[n] start).written? loud = some (.echoed text) ↔
        ∃ v, start.EndsStatement loud n v ∧ text = v.render := by
  refine ⟨session.exec_quiet fuel, session.units_quiet fuel, fun p locals => ⟨?_, ?_⟩⟩
  · intro output error? after h
    exact (session.echoing true).output_interpret fuel h
  · exact State.written?_eq_echoed_iff rfl session.store p.stmts locals

/-- A statement is echoed also within a call, and what the call itself gives is echoed after it. -/
theorem echo_only_adds_lines_in_call : ∃ quiet loud : UnitReport × Session,
    (Session.echoing {} true).exec 40
      "func f() \x7b true; wandika false; \x7d f();".toList = some loud ∧
    (Session.echoing {} false).exec 40
      "func f() \x7b true; wandika false; \x7d f();".toList = some quiet ∧
    loud.1.output = [.echoed "true", .printed "false", .echoed "nil"] ∧
    quiet.1.output = [.printed "false"] := by
  obtain ⟨loud, hloud, houtput⟩ : ∃ loud, (Session.echoing {} true).exec 40
      "func f() \x7b true; wandika false; \x7d f();".toList = some loud ∧
      loud.1.output = [.echoed "true", .printed "false", .echoed "nil"] := ⟨_, rfl, rfl⟩
  have hrel := (echo_only_adds_lines {} 40).1
    "func f() \x7b true; wandika false; \x7d f();".toList
  rw [hloud] at hrel
  generalize hquiet : (Session.echoing {} false).exec 40
    "func f() \x7b true; wandika false; \x7d f();".toList = x at hrel ⊢
  cases hrel with
  | @some quiet _ h =>
    refine ⟨quiet, loud, hloud, rfl, houtput, ?_⟩
    have hreport : quiet.1.output = loud.1.output.filter Output.isPrinted :=
      congrArg UnitReport.output h.report
    rw [hreport, houtput]
    rfl

end Wandika
