import Wandika.Command
import Wandika.Proofs.Session.Rejection

/-!
# The exit status of a script

* `Problem.isStatic`, `Problem.isScan`: sorts of problems;
* `Verdict`: how a text can end, with what is reported about it;
* `Session.verdict`: the flags of a session tell how a text has ended;
* `Classifies`: what an exit status tells;
* `Command.script_eq`: what the command does with a file that can be read;
* `exit_status_classifies`: the exit status tells what was reported.
-/

namespace Wandika

/-- Whether a problem was found by the scanner, the parser or the analysis of scopes. -/
def Problem.isStatic : Problem → Bool
  | .scan _ _ | .parse _ _ | .resolve _ _ => true
  | .runtime _ _ | .plain _ => false

/-- Whether a problem was found by the scanner. -/
def Problem.isScan : Problem → Bool
  | .scan _ _ => true
  | _ => false

theorem Problem.not_isRuntime_of_isStatic {p : Problem} (h : p.isStatic = true) :
    p.isRuntime = false := by
  cases p with
  | scan | parse | resolve => rfl
  | runtime | plain => cases h

/-! ### How a text ends -/

/-- How a text can end on a session without errors, and what is reported about it: nothing; the
errors of the scanner, or one of the parser or the analysis, and then nothing is written; or one error
of the run, which is not reached if trees are printed. -/
inductive Verdict (printTree : Bool) (report : UnitReport) : Status → Prop
  | ok (problems : report.problems = []) : Verdict printTree report .ok
  | scanning {es : List ScanError} (found : es ≠ [])
      (problems : report.problems = es.map (·.problem)) (stdout : report.stdout = "") :
      Verdict printTree report .dataError
  | parsing {e : ParseError} (problems : report.problems = [e.problem])
      (stdout : report.stdout = "") : Verdict printTree report .dataError
  | resolving {e : ScopeError} (problems : report.problems = [e.problem])
      (stdout : report.stdout = "") : Verdict printTree report .dataError
  | running {e : RuntimeError} (problems : report.problems = [e.problem])
      (unprinted : printTree = false) : Verdict printTree report .software

namespace Session

variable {session session' : Session} {source : List Char} {fuel : Nat} {report : UnitReport}

theorem verdict_of_rejected (hflags : session.flags = {})
    (h : Rejected session.printTree source)
    (hexec : session.exec fuel source = some (report, session')) :
    Verdict session.printTree report (.ofFlags session'.flags) := by
  cases h with
  | scanning scanned =>
    rw [exec_of_scan_errors hflags fuel scanned] at hexec
    cases hexec
    exact .scanning scanned (problems_scanErrors _ _) rfl
  | parsing scanned parsed =>
    rw [exec_of_parse_error hflags fuel scanned parsed] at hexec
    cases hexec
    exact .parsing rfl rfl
  | resolving scanned parsed unprinted resolved =>
    rw [exec_of_scope_error hflags fuel scanned parsed unprinted resolved] at hexec
    cases hexec
    exact .resolving (problems_scopeError _ _ _ _ _) rfl

theorem verdict_of_unit (hflags : session.flags = {}) (hprint : session.printTree = false)
    (u : SourceUnit) (hexec : session.exec fuel u.source = some (report, session')) :
    Verdict session.printTree report (.ofFlags session'.flags) := by
  rw [exec_eq u (by rw [hflags]) hprint] at hexec
  obtain ⟨final, -, houtcome⟩ := Option.map_eq_some_iff.1 hexec
  have hproblems : (session.outcome u final).1.problems = (final.error?.map (·.problem)).toList :=
    problems_outcome u final
  have hraised : (session.outcome u final).2.flags =
      Flags.recordAll {} (final.error?.map (·.problem)).toList := by
    rw [outcome, hflags]
  rw [houtcome] at hproblems hraised
  rw [hraised]
  cases herror : final.error? with
  | none =>
    rw [herror] at hproblems
    exact .ok hproblems
  | some e =>
    rw [herror] at hproblems
    exact .running hproblems hprint

/-- The flags that a session without errors is left with tell how the text has ended. -/
theorem verdict (hflags : session.flags = {})
    (hexec : session.exec fuel source = some (report, session')) :
    Verdict session.printTree report (.ofFlags session'.flags) := by
  rcases rejected_or_accepted session.printTree source with
    hrejected | ⟨hprint, hscan, p, hparse⟩ | ⟨hprint, u, rfl⟩
  · exact verdict_of_rejected hflags hrejected hexec
  · rw [exec_of_printTree hflags fuel hscan hparse hprint] at hexec
    cases hexec
    rw [hflags]
    exact .ok rfl
  · exact verdict_of_unit hflags hprint u hexec

/-- A session without errors comes to an end with every text, unless it is a unit that it is still
running. -/
theorem unit_of_exec_none (hflags : session.flags = {})
    (hexec : session.exec fuel source = none) :
    session.printTree = false ∧ ∃ u : SourceUnit, u.source = source ∧
      State.run session.mode fuel (State.start session.store u.program.stmts u.locals) = none := by
  rcases rejected_or_accepted session.printTree source with
    hrejected | ⟨hprint, hscan, p, hparse⟩ | ⟨hprint, u, rfl⟩
  · obtain ⟨report, -, hended⟩ := exec_rejected hflags hrejected fuel
    rw [hended] at hexec
    cases hexec
  · rw [exec_of_printTree hflags fuel hscan hparse hprint] at hexec
    cases hexec
  · rw [exec_eq u (by rw [hflags]) hprint] at hexec
    exact ⟨hprint, u, rfl, Option.map_eq_none_iff.1 hexec⟩

end Session

/-! ### What the exit status tells -/

/-- What an exit status tells about a script, given what was reported about it. -/
structure Classifies (status : Nat) (printTree : Bool) (report : UnitReport) : Prop where
  /-- Errors found before running and errors found while running never both occur. -/
  exclusive : ¬((∃ p ∈ report.problems, p.isStatic) ∧ ∃ p ∈ report.problems, p.isRuntime)
  dataError_iff : status = 65 ↔ ∃ p ∈ report.problems, p.isStatic
  dataError : status = 65 → report.stdout = "" ∧ ¬∃ p ∈ report.problems, p.isRuntime
  software_iff : status = 70 ↔ ∃ p, report.problems = [p] ∧ p.isRuntime
  software : status = 70 → printTree = false
  ok : status ≠ 65 → status ≠ 70 → status = 0 ∧ report.problems = []
  /-- More than one error is reported by the scanner only. -/
  single : report.problems.length ≤ 1 ∨ ∀ p ∈ report.problems, p.isScan

section Classifies

variable {printTree : Bool} {report : UnitReport}

theorem Classifies.of_static (hne : report.problems ≠ [])
    (hstatic : ∀ p ∈ report.problems, p.isStatic) (hstdout : report.stdout = "")
    (hsingle : report.problems.length ≤ 1 ∨ ∀ p ∈ report.problems, p.isScan) :
    Classifies 65 printTree report := by
  have hexists : ∃ p ∈ report.problems, p.isStatic := by
    obtain ⟨p, hp⟩ := List.exists_mem_of_ne_nil _ hne
    exact ⟨p, hp, hstatic p hp⟩
  have hnone : ¬∃ p ∈ report.problems, p.isRuntime := by
    rintro ⟨p, hp, hruntime⟩
    rw [Problem.not_isRuntime_of_isStatic (hstatic p hp)] at hruntime
    cases hruntime
  refine ⟨fun h => hnone h.2, by simpa using hexists, fun _ => ⟨hstdout, hnone⟩, ?_, by simp,
    by simp, hsingle⟩
  refine ⟨by simp, ?_⟩
  rintro ⟨p, hp, hruntime⟩
  exact absurd ⟨p, by rw [hp]; exact List.mem_singleton_self p, hruntime⟩ hnone

theorem Classifies.of_static_single {p : Problem} (hp : report.problems = [p])
    (hstatic : p.isStatic) (hstdout : report.stdout = "") : Classifies 65 printTree report := by
  refine .of_static ?_ ?_ hstdout (.inl ?_)
  · simp [hp]
  · simpa [hp] using hstatic
  · simp [hp]

theorem Verdict.classifies {status : Status} (h : Verdict printTree report status) :
    Classifies status.code printTree report := by
  cases h with
  | ok problems =>
    constructor <;> simp [problems, Status.code]
  | scanning found problems stdout =>
    have hscan : ∀ p ∈ report.problems, p.isStatic ∧ p.isScan := by
      rw [problems]
      intro p hp
      obtain ⟨e, -, rfl⟩ := List.mem_map.1 hp
      exact ⟨rfl, rfl⟩
    refine .of_static ?_ (fun p hp => (hscan p hp).1) stdout (.inr fun p hp => (hscan p hp).2)
    rw [problems]
    exact mt List.map_eq_nil_iff.1 found
  | parsing problems stdout => exact .of_static_single problems rfl stdout
  | resolving problems stdout => exact .of_static_single problems rfl stdout
  | @running e problems unprinted =>
    have hstatic : e.problem.isStatic = false := rfl
    have hruntime : e.problem.isRuntime = true := rfl
    constructor <;> simp [problems, Status.code, hstatic, hruntime, unprinted]

end Classifies

/-! ### The command -/

theorem World.bind_apply {α β : Type} (act : StateM World α) (next : α → StateM World β)
    (world : World) : (act >>= next) world = next (act world).1 (act world).2 := rfl

theorem stderrText_cons (warnings : Bool) (clock? : Option Clock) (d : Diagnostic)
    (ds : List Diagnostic) :
    stderrText warnings clock? (d :: ds) =
      stderrText warnings clock? [d] ++ stderrText warnings clock? ds := by
  simp [stderrText]

/-- A file that can be read is run on a fresh session. What it writes and what is reported about it
are added to the two streams. -/
theorem Command.script_eq (c : Context) (settings : Settings) {path : String} {world : World}
    {bytes : List UInt8} (hread : world.files.read path = .ok bytes) :
    let told := fun ds => stderrText settings.warnings (c.clock? settings) ds
    let begun := { world with stderr := world.stderr ++ told [.log (.file path bytes.length)] }
    (script c settings path : StateM World _) world =
      match runScript c.fuel settings bytes with
      | none => (none, begun)
      | some (r, status) => (some status, { begun with
          stdout := begun.stdout ++ r.stdout
          stderr := begun.stderr ++ told r.diagnostics }) := by
  intro told begun
  have hfile : (Host.readFile path : StateM World _) world = (.ok bytes, world) := by
    show (world.files.read path, world) = _
    rw [hread]
  unfold script
  rw [World.bind_apply, hfile]
  dsimp only
  cases runScript c.fuel settings bytes with
  | none => rfl
  | some result => rfl

/-- The exit status classifies a run. A script that can be read comes to an end, unless it is a unit
that is still being run after as many steps as are allowed. When it ends, its output and the lines
about it have been written, and the status tells what was reported: 65 if there were errors before
the run, and then nothing was written; 70 if there was an error of the run, the only one; and 0 if
there was none. -/
theorem exit_status_classifies (c : Command.Context) (settings : Settings) (path : String)
    (world : World) {bytes : List UInt8} (hread : world.files.read path = .ok bytes) :
    (∀ world', (Command.script c settings path : StateM World _) world = (none, world') →
      settings.printTree = false ∧ ∃ u : SourceUnit, u.source = Text.Utf8.decode bytes ∧
        State.run {} c.fuel (State.start Store.empty u.program.stmts u.locals) = none) ∧
    ∀ status world',
      (Command.script c settings path : StateM World _) world = (some status, world') →
      ∃ report : UnitReport, runScript c.fuel settings bytes = some (report, status) ∧
        world'.stdout = world.stdout ++ report.stdout ∧
        world'.stderr = world.stderr ++ stderrText settings.warnings (c.clock? settings)
          (.log (.file path bytes.length) :: report.diagnostics) ∧
        Classifies status.code settings.printTree report := by
  have hscript := Command.script_eq c settings hread
  dsimp only at hscript
  refine ⟨fun world' h => ?_, fun status world' h => ?_⟩
  · rw [hscript] at h
    cases hrun : runScript c.fuel settings bytes with
    | none => exact Session.unit_of_exec_none rfl (Option.map_eq_none_iff.1 hrun)
    | some result =>
      rw [hrun] at h
      cases h
  · rw [hscript] at h
    cases hrun : runScript c.fuel settings bytes with
    | none =>
      rw [hrun] at h
      cases h
    | some result =>
      obtain ⟨report, status'⟩ := result
      rw [hrun] at h
      cases h
      obtain ⟨⟨report', session'⟩, hexec, hresult⟩ := Option.map_eq_some_iff.1 hrun
      cases hresult
      refine ⟨report, rfl, rfl, ?_, (Session.verdict rfl hexec).classifies⟩
      rw [stderrText_cons _ _ _ report.diagnostics, ← String.append_assoc]

/-- A script that prints a text and then fails within a call. That a condition without an else branch
is warned about does not count. -/
theorem exit_status_classifies_failing_call :
    ∃ (bytes : List UInt8) (world world' : World) (report : UnitReport) (p : Problem),
      bytes = Text.Utf8.encode "func f() \x7b x(); \x7d wandika nil ? nil; f(); wandika f;" ∧
      world.files.read "script" = .ok bytes ∧
      (Command.script ⟨40, ⟨"", ""⟩⟩ {} "script" : StateM World _) world =
        (some .software, world') ∧
      world'.stdout = world.stdout ++ report.stdout ∧ report.output.length = 1 ∧
      report.warnings.length = 1 ∧ report.problems = [p] ∧ p.isRuntime = true := by
  let bytes := Text.Utf8.encode "func f() \x7b x(); \x7d wandika nil ? nil; f(); wandika f;"
  let world : World := { files := ⟨[(["script"], .file bytes)]⟩ }
  have hread : world.files.read "script" = .ok bytes := by decide +kernel
  have h : (match runScript 40 {} bytes with
      | some (report, status) => decide (status = .software ∧ report.output.length = 1 ∧
          report.warnings.length = 1)
      | none => false) = true := by decide +kernel
  split at h
  · rename_i report status hrun
    obtain ⟨rfl, houtput, hwarnings⟩ := of_decide_eq_true h
    have hscript := Command.script_eq ⟨40, ⟨"", ""⟩⟩ {} hread
    dsimp only at hscript
    rw [hrun] at hscript
    obtain ⟨report', hrun', hstdout, -, hclass⟩ :=
      (exit_status_classifies _ {} "script" world hread).2 _ _ hscript
    obtain rfl : report = report' := by simpa [hrun] using hrun'
    obtain ⟨p, hp, hruntime⟩ := hclass.software_iff.1 rfl
    exact ⟨bytes, world, _, report, p, rfl, hread, hscript, hstdout, houtput, hwarnings, hp,
      hruntime⟩
  · cases h

end Wandika
