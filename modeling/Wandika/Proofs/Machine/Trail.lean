import Wandika.Proofs.Parser.Acceptance
import Wandika.Proofs.Scope.Table
import Wandika.Session

/-!
# Runs of several source units

A run is followed together with what the machine itself does not record: which unit the running code
comes from, what made every frame, and which unit declared every function.

* `SourceUnit`: a source text that passes the checks before it is run, `SourceUnit.ofSource?` makes
  one of a text;
* `Origin`, `Trail`: what made a frame, and the record of a run;
* `State.entering?`: the function that the next step begins to run;
* `Trail.step`: how the record goes on with a step of the machine;
* `Moment`: the states of a session with their records;
* `Rested.exec`: a session, whatever texts it is given, passes through such states only.
-/

namespace Wandika

/-! ### Units -/

/-- A source text that is scanned, parsed and analysed without an error, with its program. -/
structure SourceUnit where
  source : List Char
  program : Program
  scanned : (scan source).errors = []
  parsed : (Program.parse { rest := (scan source).tokens }).1 = .ok program
  resolved : program.resolve.error? = none

namespace SourceUnit

/-- The unit of a source text, if the text passes the checks. -/
def ofSource? (source : List Char) : Option SourceUnit :=
  if hs : (scan source).errors.isEmpty then
    match hp : (Program.parse { rest := (scan source).tokens }).1 with
    | .error _ => none
    | .ok p =>
        match hr : p.resolve.error? with
        | some _ => none
        | none => some ⟨source, p, List.isEmpty_iff.1 hs, hp, hr⟩
  else none

/-- The table of distances of a unit. -/
def locals (u : SourceUnit) : Locals := u.program.resolve.locals

/-- The visits of the analysis of a unit. -/
def visits (u : SourceUnit) : List Visit := u.program.visits

/-- The visit of a node. -/
def visit? (u : SourceUnit) (id : Int) : Option Visit :=
  u.visits.find? (·.id = id)

theorem numbered (u : SourceUnit) : Numbered 0 (Stmt.idsAll u.program.stmts) := by
  have h : Program.parse (.ofSource u.source) =
      (.ok u.program, (Program.parse (.ofSource u.source)).2) :=
    Prod.ext u.parsed rfl
  exact (tree_of_parse h).2.2

variable {u : SourceUnit} {v : Visit}

theorem visit?_of_mem (hv : v ∈ u.visits) : u.visit? v.id = some v := by
  have hd : (u.visits.map Visit.id).Nodup :=
    (Stmt.perm_visitsAll _ _ _).nodup_iff.2 u.numbered.nodup
  -- no other visit has the number, so the first one that has it is this one
  unfold visit?
  revert hd hv
  generalize u.visits = vs
  intro hv hd
  induction vs with
  | nil => cases hv
  | cons w ws ih =>
    simp only [List.map_cons, List.nodup_cons] at hd
    rcases List.mem_cons.1 hv with rfl | hv
    · simp
    · have hne : ¬ w.id = v.id := fun e => hd.1 (e ▸ List.mem_map_of_mem hv)
      rw [List.find?_cons_of_neg (by simpa using hne)]
      exact ih hv hd.2

theorem distance?_of_mem (hv : v ∈ u.visits) :
    u.locals.distance? v.id = Resolver.depth? v.scopes v.name :=
  distance?_of_visit u.resolved (fun _ h => u.numbered.nonneg h) u.numbered.nodup hv

theorem covered (hv : v ∈ u.visits) : Covered v.scopes v.layers :=
  covered_of_visit u.resolved hv

end SourceUnit

/-! ### Records of runs -/

/-- What made a frame: the block or the function that was run, and the unit it stands in. -/
structure Origin where
  unit : SourceUnit
  area : Area

/-- The record of a run: the unit of the running code and the units of its callers, what made each
frame, and the unit that declared each function. -/
structure Trail where
  unit : SourceUnit
  callers : List SourceUnit := []
  origin? : FrameId → Option Origin := fun _ => none
  declarer? : Nat → Option SourceUnit := fun _ => none

namespace Trail

/-- A block of the running unit makes a frame. -/
def openBlock (t : Trail) (frame : FrameId) (body : List Stmt) : Trail :=
  { t with origin? := Function.update t.origin? frame (some ⟨t.unit, .block body⟩) }

/-- The running unit declares a function. -/
def declare (t : Trail) (id : Nat) : Trail :=
  { t with declarer? := Function.update t.declarer? id (some t.unit) }

/-- A call makes a frame, and goes on in the unit that declared the function. -/
def enter (t : Trail) (frame : FrameId) (f : Closure) : Trail :=
  match t.declarer? f.id with
  | none => t
  | some u =>
      { t with
        unit := u
        callers := t.unit :: t.callers
        origin? := Function.update t.origin? frame (some ⟨u, .call f.decl⟩) }

/-- A call ends, and its caller goes on. -/
def leave (t : Trail) : Trail :=
  match t.callers with
  | [] => t
  | u :: us => { t with unit := u, callers := us }

end Trail

/-- The functions that a value holds. -/
def Value.closures : Value → List Closure
  | .datum _ => []
  | .function f => [f]
  | .overloads o => o.functions

namespace State

/-- The function that a call runs, if it begins to run one. -/
def target? (mode : Mode) (s : State) (callee : Value) (count : Nat) : Option Closure :=
  if s.atLimit mode then none else callee.closures.find? (·.arity = count)

/-- A function that is run belongs to the value that is called, and takes as many arguments. -/
theorem of_target? {mode : Mode} {s : State} {callee : Value} {count : Nat} {f : Closure}
    (h : s.target? mode callee count = some f) : f ∈ callee.closures ∧ f.arity = count := by
  unfold target? at h
  split_ifs at h
  exact ⟨List.mem_of_find?_eq_some h, by simpa using List.find?_some h⟩

/-- What a call can do: run a function that takes the arguments, make an object, or fail. -/
inductive Calls (mode : Mode) (s : State) (callee : Value) (args : List Value) : State → Prop
  | runs {f : Closure} (mem : f ∈ callee.closures) (arity : args.length = f.arity)
      (target : s.target? mode callee args.length = some f) :
      Calls mode s callee args
        { s with
          control := .done .next
          stack := .sequence f.decl.body :: .leaveCall s.registers :: s.stack
          registers := ⟨s.store.frames.size, f.locals, s.registers.depth + 1⟩
          store := s.store.pushFrame ⟨some f.frame, bindParams f.decl.params args⟩ }
  | makes (c : Class) (target : s.target? mode callee args.length = none) :
      Calls mode s callee args
        { s with
          control := .value (.object (s.store.newObject c).1)
          store := (s.store.newObject c).2 }
  | fails (e : RuntimeError) (target : s.target? mode callee args.length = none) :
      Calls mode s callee args (s.goto (.raise e))

section Calls

variable {mode : Mode} {s : State} {paren : Option Token} {callee : Value} {args : List Value}

theorem calls_enter {f : Closure} (h : callee.closures.find? (·.arity = args.length) = some f) :
    Calls mode s callee args (s.enter mode paren f args) := by
  unfold enter
  split_ifs with hl
  · exact .fails _ (by simp [target?, hl])
  · have ha : f.arity = args.length := by simpa using List.find?_some h
    exact .runs (List.mem_of_find?_eq_some h) ha.symm (by simp [target?, hl, h])

theorem calls_fail (h : callee.closures.find? (·.arity = args.length) = none)
    (cause : RuntimeCause) : Calls mode s callee args (s.fail paren cause) :=
  .fails _ (by simp [target?, h])

theorem calls_call : Calls mode s callee args (s.call mode paren callee args) := by
  cases callee with
  | datum d =>
    have hn : (Value.datum d).closures.find? (·.arity = args.length) = none := rfl
    cases d with
    | cls c =>
      simp only [call, construct]
      split_ifs
      · exact calls_fail hn _
      · exact .makes c (by simp [target?, hn])
      · exact calls_fail hn _
    | _ => exact calls_fail hn _
  | function f =>
    simp only [call]
    split_ifs with ha
    · exact calls_enter (by simp [Value.closures, ha])
    · exact calls_fail (by simpa [Value.closures] using Ne.symm ha) _
  | overloads o =>
    simp only [call]
    split
    · rename_i f hf
      exact calls_enter hf
    · rename_i hn
      have hn : (Value.overloads o).closures.find? (·.arity = args.length) = none := hn
      exact calls_fail hn _

end Calls

/-- The function that the next step begins to run, if it begins to run one. -/
def entering? (mode : Mode) (s : State) : Option Closure :=
  match s.control, s.stack with
  | .value v, .callee _ [] :: _ => s.target? mode v 0
  | .value v, .argument _ callee before [] :: _ => s.target? mode callee (before ++ [v]).length
  | _, _ => none

end State

/-- The record after the next step. -/
def Trail.step (mode : Mode) (s : State) (t : Trail) : Trail :=
  match s.control, s.stack with
  | .exec (.block body), _ => t.openBlock s.store.frames.size body
  | .exec (.function _), _ => t.declare s.store.nextId
  | .done _, .leaveCall _ :: _ | .raise _, .leaveCall _ :: _ => t.leave
  | _, _ =>
      match s.entering? mode with
      | some f => t.enter s.store.frames.size f
      | none => t

/-- The states of a session that runs the units one after another, each with its record. The next
unit begins when the state is halted, also after an error. -/
inductive Moment (mode : Mode) : List SourceUnit → State → Trail → Prop
  | first (u : SourceUnit) :
      Moment mode [u] (State.start Store.empty u.program.stmts u.locals) { unit := u }
  | step {us : List SourceUnit} {s : State} {t : Trail} (h : Moment mode us s t) :
      Moment mode us (s.step mode) (t.step mode s)
  | next {us : List SourceUnit} {s : State} {t : Trail} (h : Moment mode us s t)
      (hs : s.halted = true) (u : SourceUnit) :
      Moment mode (us ++ [u]) (State.start s.store u.program.stmts u.locals)
        { t with unit := u, callers := [] }

/-- The machine and the record take a step together. -/
def advance (mode : Mode) (p : State × Trail) : State × Trail :=
  (p.1.step mode, p.2.step mode p.1)

theorem Moment.iterate {mode : Mode} {us : List SourceUnit} {s : State} {t : Trail}
    (h : Moment mode us s t) (n : Nat) :
    Moment mode us ((advance mode)^[n] (s, t)).1 ((advance mode)^[n] (s, t)).2 := by
  induction n with
  | zero => exact h
  | succ n ih =>
    rw [Function.iterate_succ_apply']
    exact ih.step

/-! ### Sessions -/

/-- Where a session stands that has run the units: nothing was run yet, or the last run has
halted. -/
def Rested (mode : Mode) (us : List SourceUnit) (store : Store) : Prop :=
  (us = [] ∧ store = Store.empty) ∨
    ∃ s t, Moment mode us s t ∧ s.halted = true ∧ s.store = store

section Sessions

variable {mode : Mode} {us : List SourceUnit}

theorem Rested.begin {store : Store} (h : Rested mode us store) (u : SourceUnit) :
    ∃ t, Moment mode (us ++ [u]) (State.start store u.program.stmts u.locals) t := by
  rcases h with ⟨rfl, rfl⟩ | ⟨s, t, hm, hs, rfl⟩
  · exact ⟨_, .first u⟩
  · exact ⟨_, hm.next hs u⟩

/-- A run that halts passes through moments only. -/
theorem Moment.run {fuel : Nat} : ∀ {s s' : State} {t : Trail}, Moment mode us s t →
    State.run mode fuel s = some s' → ∃ t', Moment mode us s' t' ∧ s'.halted = true := by
  induction fuel with
  | zero =>
    intro s s' t hm hr
    simp only [State.run] at hr
    split_ifs at hr with hs
    cases hr
    exact ⟨t, hm, hs⟩
  | succ fuel ih =>
    intro s s' t hm hr
    simp only [State.run] at hr
    split_ifs at hr with hs
    · cases hr
      exact ⟨t, hm, hs⟩
    · exact ih hm.step hr

/-- A problem that is found before running raises the first flag for good. -/
theorem Flags.error_recordAll (ps : List Problem) : ∀ f : Flags,
    (f.recordAll ps).error = (f.error || ps.any fun p => !p.isRuntime) := by
  induction ps with
  | nil => simp
  | cons p ps ih =>
    intro f
    rw [Flags.recordAll_cons, ih, Flags.record]
    cases hp : p.isRuntime <;> simp [hp]

theorem Flags.eq_nil_of_recordAll {f : Flags} {ps : List Problem}
    (h : ¬ (f.recordAll ps).error = true) (hp : ∀ p ∈ ps, p.isRuntime = false) : ps = [] := by
  rw [Flags.error_recordAll] at h
  cases ps with
  | nil => rfl
  | cons p ps =>
    exact absurd (by simp [hp p List.mem_cons_self]) h

/-- A session that runs a unit stands at a moment again. -/
theorem Rested.interpret {fuel : Nat} {session session' : Session} {output : List Output}
    {error? : Option RuntimeError} {u : SourceUnit} (h : Rested session.mode us session.store)
    (hr : session.interpret fuel u.program u.locals = some (output, error?, session')) :
    Rested session'.mode (us ++ [u]) session'.store := by
  obtain ⟨t, hm⟩ := h.begin u
  obtain ⟨final, hrun, e⟩ := Option.map_eq_some_iff.1 hr
  obtain ⟨t', hm', hs⟩ := hm.run hrun
  cases e
  exact Or.inr ⟨final, t', hm', hs, rfl⟩

/-- Nothing is run, or the unit of the source is run and the session stands at a moment again. -/
def Session.Passes (session : Session) (us : List SourceUnit) (source : List Char)
    (session' : Session) : Prop :=
  (session'.mode = session.mode ∧ session'.store = session.store) ∨
    ∃ u : SourceUnit, u.source = source ∧ Rested session'.mode (us ++ [u]) session'.store

theorem Rested.resolveAndRun {fuel : Nat} {session session' : Session} {report : UnitReport}
    {source : List Char} {p : Program} {before : List Diagnostic}
    (h : Rested session.mode us session.store) (hs : (scan source).errors = [])
    (hp : (Program.parse { rest := (scan source).tokens }).1 = .ok p)
    (he : session.resolveAndRun fuel p before = some (report, session')) :
    session.Passes us source session' := by
  unfold Session.resolveAndRun at he
  dsimp only at he
  split_ifs at he with hflag
  · cases he
    exact Or.inl ⟨rfl, rfl⟩
  · have hr : p.resolve.error? = none := by
      have hnil := Flags.eq_nil_of_recordAll hflag (by simp [ScopeError.problem, Problem.isRuntime])
      simpa using hnil
    obtain ⟨⟨output, error?, final⟩, hrun, e⟩ := Option.map_eq_some_iff.1 he
    cases e
    refine Or.inr ⟨⟨source, p, hs, hp, hr⟩, rfl, Rested.interpret ?_ hrun⟩
    exact h

/-- Whatever text a session is given, it stands at a moment again. -/
theorem Rested.exec {fuel : Nat} {session session' : Session} {report : UnitReport}
    {source : List Char} (h : Rested session.mode us session.store)
    (he : session.exec fuel source = some (report, session')) :
    session.Passes us source session' := by
  unfold Session.exec at he
  dsimp only at he
  split at he
  · cases he
    exact Or.inl ⟨rfl, rfl⟩
  · rename_i hflag
    have hs : (scan source).errors = [] := by
      have hnil := Flags.eq_nil_of_recordAll hflag (by simp [ScanError.problem, Problem.isRuntime])
      simpa using hnil
    split at he
    · cases he
      exact Or.inl ⟨rfl, rfl⟩
    · cases he
    · rename_i p hp
      split at he
      · cases he
        exact Or.inl ⟨rfl, rfl⟩
      · -- only the flags of the session have changed so far
        have hpass := Rested.resolveAndRun (by exact h) hs hp he
        exact hpass

end Sessions

end Wandika
