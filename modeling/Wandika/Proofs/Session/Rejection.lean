import Wandika.Proofs.Parser.Acceptance
import Wandika.Proofs.Session.Joined

/-!
# Units that are not run

* `Rejected`: a pass before the run reports an error about a text;
* `Session.exec_rejected`, `Session.exec_printed`, `Session.exec_eq`: what a session does with a
  text, whose cases are `rejected_or_accepted`;
* `Session.units`: a session with its flags cleared after each unit;
* `rejected_unit_invisible`: only the flags show that a rejected unit was there.
-/

namespace Wandika

/-- The scanner, the parser or the analysis reports an error about a text. If trees are printed, the
analysis is not reached. -/
inductive Rejected (printTree : Bool) (source : List Char) : Prop
  | scanning (scanned : (scan source).errors ≠ [])
  | parsing {e : ParseError} (scanned : (scan source).errors = [])
      (parsed : (Program.parse (.ofSource source)).1 = .error (.rejected e))
  | resolving {p : Program} {e : ScopeError} (scanned : (scan source).errors = [])
      (parsed : (Program.parse (.ofSource source)).1 = .ok p) (unprinted : printTree = false)
      (resolved : p.resolve.error? = some e)

/-- A text is rejected, or its tree is printed, or it is a unit. -/
theorem rejected_or_accepted (printTree : Bool) (source : List Char) :
    Rejected printTree source ∨
      (printTree = true ∧ (scan source).errors = [] ∧
        ∃ p, (Program.parse (.ofSource source)).1 = .ok p) ∨
      printTree = false ∧ ∃ u : SourceUnit, u.source = source := by
  by_cases hscan : (scan source).errors = []
  · rcases parse_scan_cases source with ⟨p, c, hparse, -⟩ | ⟨e, c, hparse⟩
    · have hparse : (Program.parse (.ofSource source)).1 = .ok p := congrArg Prod.fst hparse
      cases hprint : printTree with
      | true => exact .inr (.inl ⟨rfl, hscan, p, hparse⟩)
      | false =>
        cases hresolve : p.resolve.error? with
        | some e => exact .inl (.resolving hscan hparse rfl hresolve)
        | none => exact .inr (.inr ⟨rfl, ⟨source, p, hscan, hparse, hresolve⟩, rfl⟩)
    · exact .inl (.parsing hscan (congrArg Prod.fst hparse))
  · exact .inl (.scanning hscan)

/-- A text of which the parser makes no program is rejected. -/
theorem Rejected.of_failure {source : List Char} {failure : Failure}
    (h : (Program.parse (.ofSource source)).1 = .error failure) (printTree : Bool) :
    Rejected printTree source := by
  rcases rejected_or_accepted printTree source with hrejected | ⟨-, -, p, hparse⟩ | ⟨-, u, rfl⟩
  · exact hrejected
  · rw [hparse] at h
    cases h
  · have hparse : (Program.parse (.ofSource u.source)).1 = .ok u.program := u.parsed
    rw [hparse] at h
    cases h

/-- Problems that are found before running raise the first flag only. -/
theorem Flags.recordAll_of_static {ps : List Problem} (hne : ps ≠ [])
    (hp : ∀ p ∈ ps, p.isRuntime = false) (f : Flags) :
    f.recordAll ps = { f with error := true } := by
  induction ps generalizing f with
  | nil => exact absurd rfl hne
  | cons p ps ih =>
    have hrecord : f.record p = { f with error := true } := by
      rw [Flags.record, hp p List.mem_cons_self]
      rfl
    rw [Flags.recordAll_cons, hrecord]
    by_cases hnil : ps = []
    · rw [hnil, Flags.recordAll_nil]
    · exact ih hnil (fun q hq => hp q (List.mem_cons_of_mem p hq)) _

namespace Session

variable {session : Session} {source : List Char}

/-! ### What a session does with a text -/

section Passes

variable (hflags : session.flags = {}) (fuel : Nat)

include hflags

theorem exec_of_scan_errors (scanned : (scan source).errors ≠ []) :
    session.exec fuel source =
      some ({ diagnostics := (scan source).errors.map (fun e => .problem e.problem) ++
                [.log (.scanned (scan source).tokens.length)] },
        { session with flags := { error := true } }) := by
  have hraised : session.flags.recordAll ((scan source).errors.map (·.problem)) =
      { error := true } := by
    rw [hflags]
    refine Flags.recordAll_of_static (mt List.map_eq_nil_iff.1 scanned) ?_ {}
    intro p hp
    obtain ⟨e, -, rfl⟩ := List.mem_map.1 hp
    rfl
  simp [exec, hraised, Function.comp_def]

theorem exec_of_parse_error {e : ParseError} (scanned : (scan source).errors = [])
    (parsed : (Program.parse (.ofSource source)).1 = .error (.rejected e)) :
    session.exec fuel source =
      some ({ diagnostics := [.log (.scanned (scan source).tokens.length), .problem e.problem,
                .log .parseFailed] },
        { session with flags := { error := true } }) := by
  have hparse : (Program.parse { rest := (scan source).tokens }).1 = .error (.rejected e) := parsed
  have hraised : Flags.record {} e.problem = { error := true } := rfl
  simp [exec, scanned, hflags, hparse, hraised]

theorem exec_of_scope_error {p : Program} {e : ScopeError} (scanned : (scan source).errors = [])
    (parsed : (Program.parse (.ofSource source)).1 = .ok p) (unprinted : session.printTree = false)
    (resolved : p.resolve.error? = some e) :
    session.exec fuel source =
      some ({ diagnostics := [.log (.scanned (scan source).tokens.length),
                .log (.parsed p.stmts.length p.nodes)] ++ p.resolve.warnings.map .warning ++
                [.problem e.problem, .log (.resolved true)] },
        { session with flags := { error := true } }) := by
  have hparse : (Program.parse { rest := (scan source).tokens }).1 = .ok p := parsed
  have hraised : Flags.record {} e.problem = { error := true } := rfl
  simp [exec, scanned, hflags, hparse, unprinted, resolveAndRun, resolved, hraised]

theorem exec_of_printTree {p : Program} (scanned : (scan source).errors = [])
    (parsed : (Program.parse (.ofSource source)).1 = .ok p) (printed : session.printTree = true) :
    session.exec fuel source =
      some ({ tree := p.render
              diagnostics := [.log (.scanned (scan source).tokens.length),
                .log (.parsed p.stmts.length p.nodes)] }, session) := by
  have hparse : (Program.parse { rest := (scan source).tokens }).1 = .ok p := parsed
  obtain ⟨mode, printTree, store, flags⟩ := session
  dsimp only at hflags printed
  subst hflags printed
  simp [exec, scanned, hparse]

end Passes

/-! ### Reports about rejected texts -/

theorem problems_scanErrors (es : List ScanError) (entry : LogEntry) :
    problems (es.map (fun e => .problem e.problem) ++ [.log entry]) = es.map (·.problem) := by
  simp [problems, List.filterMap_map, Function.comp_def, Diagnostic.problem?]

/-- Among warnings and entries of the log, the problem of the analysis is the only one. -/
theorem problems_scopeError (scanned parsed resolved : LogEntry) (ws : List String) (p : Problem) :
    problems ([.log scanned, .log parsed] ++ ws.map .warning ++ [.problem p, .log resolved]) =
      [p] := by
  rw [problems, List.filterMap_append, List.filterMap_append, problems_warnings]
  rfl

/-- The report of a unit that was not run: nothing is written, and there are problems, all of which
are such as are found before running. -/
structure Refuses (report : UnitReport) : Prop where
  stdout : report.stdout = ""
  problems : report.problems ≠ []
  static : ∀ p ∈ report.problems, p.isRuntime = false

theorem Refuses.of_problem {report : UnitReport} {p : Problem} (hstdout : report.stdout = "")
    (h : report.problems = [p]) (hp : p.isRuntime = false) : Refuses report := by
  refine ⟨hstdout, ?_, ?_⟩
  · rw [h]
    exact List.cons_ne_nil p []
  · rw [h]
    intro q hq
    rwa [List.mem_singleton.1 hq]

/-- A session that has met no error stops at a rejected text, and only its flags change. -/
theorem exec_rejected (hflags : session.flags = {}) (h : Rejected session.printTree source)
    (fuel : Nat) :
    ∃ report, Refuses report ∧
      session.exec fuel source = some (report, { session with flags := { error := true } }) := by
  cases h with
  | scanning scanned =>
    refine ⟨_, ?_, exec_of_scan_errors hflags fuel scanned⟩
    refine ⟨rfl, ?_, ?_⟩
    · rw [UnitReport.problems, problems_scanErrors]
      exact mt List.map_eq_nil_iff.1 scanned
    · rw [UnitReport.problems, problems_scanErrors]
      intro p hp
      obtain ⟨e, -, rfl⟩ := List.mem_map.1 hp
      rfl
  | parsing scanned parsed =>
    exact ⟨_, .of_problem rfl rfl rfl, exec_of_parse_error hflags fuel scanned parsed⟩
  | resolving scanned parsed unprinted resolved =>
    rename_i p e
    refine ⟨_, .of_problem (p := e.problem) rfl ?_ rfl,
      exec_of_scope_error hflags fuel scanned parsed unprinted resolved⟩
    exact problems_scopeError _ _ _ _ _

variable {session' : Session} {report : UnitReport} {fuel : Nat}

/-- The problems of a text that is not rejected are such as are found while running, and trees are
still printed or not. -/
theorem exec_accepted (hflags : session.flags = {}) (h : ¬ Rejected session.printTree source)
    (hexec : session.exec fuel source = some (report, session')) :
    (∀ p ∈ report.problems, p.isRuntime = true) ∧ session'.printTree = session.printTree := by
  rcases rejected_or_accepted session.printTree source with
    hrejected | ⟨hprint, hscan, p, hparse⟩ | ⟨hprint, u, rfl⟩
  · exact absurd hrejected h
  · rw [exec_of_printTree hflags fuel hscan hparse hprint] at hexec
    cases hexec
    refine ⟨?_, rfl⟩
    intro q hq
    cases hq
  · have herror : session.flags.error = false := by rw [hflags]
    rw [exec_eq u herror hprint] at hexec
    obtain ⟨final, -, houtcome⟩ := Option.map_eq_some_iff.1 hexec
    cases houtcome
    refine ⟨?_, rfl⟩
    intro q hq
    have hq : q ∈ (final.error?.map (·.problem)).toList := problems_outcome u final ▸ hq
    obtain ⟨e, -, rfl⟩ := Option.map_eq_some_iff.1 (Option.mem_toList.1 hq)
    rfl

/-- A text is rejected exactly if a problem is reported that is not found while running. -/
theorem rejected_iff (hflags : session.flags = {})
    (hexec : session.exec fuel source = some (report, session')) :
    Rejected session.printTree source ↔ ∃ p ∈ report.problems, p.isRuntime = false := by
  constructor
  · intro h
    obtain ⟨report', hrefuses, hexec'⟩ := exec_rejected hflags h fuel
    rw [hexec] at hexec'
    cases hexec'
    obtain ⟨p, hp⟩ := List.exists_mem_of_ne_nil _ hrefuses.problems
    exact ⟨p, hp, hrefuses.static p hp⟩
  · rintro ⟨p, hp, hstatic⟩
    by_contra h
    have hruntime := (exec_accepted hflags h hexec).1 p hp
    rw [hstatic] at hruntime
    cases hruntime

theorem printTree_exec (hflags : session.flags = {})
    (hexec : session.exec fuel source = some (report, session')) :
    session'.printTree = session.printTree := by
  by_cases h : Rejected session.printTree source
  · obtain ⟨report', -, hexec'⟩ := exec_rejected hflags h fuel
    rw [hexec] at hexec'
    cases hexec'
    rfl
  · exact (exec_accepted hflags h hexec).2

/-- Without a program, no pass that needs it leaves an entry in the log. -/
theorem log_of_failure (hflags : session.flags = {}) {failure : Failure}
    (h : (Program.parse (.ofSource source)).1 = .error failure)
    (hexec : session.exec fuel source = some (report, session')) {entry : LogEntry}
    (hentry : .log entry ∈ report.diagnostics) :
    (∃ tokens, entry = .scanned tokens) ∨ entry = .parseFailed := by
  cases Rejected.of_failure h session.printTree with
  | scanning scanned =>
    rw [exec_of_scan_errors hflags fuel scanned] at hexec
    cases hexec
    have hentry : entry = .scanned (scan source).tokens.length := by simpa using hentry
    exact .inl ⟨_, hentry⟩
  | parsing scanned parsed =>
    rw [exec_of_parse_error hflags fuel scanned parsed] at hexec
    cases hexec
    have hentry : entry = .scanned (scan source).tokens.length ∨ entry = .parseFailed := by
      simpa using hentry
    exact hentry.imp_left fun hscanned => ⟨_, hscanned⟩
  | resolving scanned parsed =>
    rw [parsed] at h
    cases h

/-! ### Units one after another -/

/-- What is reported about one text after another, each with the session it leaves, whose flags are
then cleared. The list ends where a text is run for more than `fuel` steps. -/
def units (fuel : Nat) : Session → List (List Char) → List (UnitReport × Session)
  | _, [] => []
  | session, source :: sources =>
      match session.exec fuel source with
      | none => []
      | some (report, session') => (report, session') :: session'.reset.units fuel sources

/-- A session goes on from a rejected text as if it had not been there. -/
theorem units_eraseIdx (hflags : session.flags = {}) (h : Rejected session.printTree source)
    (fuel : Nat) (before after : List (List Char)) :
    (session.units fuel (before ++ source :: after)).eraseIdx before.length =
      session.units fuel (before ++ after) := by
  induction before generalizing session with
  | nil =>
    obtain ⟨report, -, hexec⟩ := exec_rejected hflags h fuel
    have hreset : ({ session with flags := { error := true } } : Session).reset = session := by
      rw [reset, ← hflags]
    rw [List.nil_append, List.nil_append, units, hexec]
    dsimp only
    rw [hreset]
    rfl
  | cons first before ih =>
    rw [List.cons_append, List.cons_append, units, units]
    cases hexec : session.exec fuel first with
    | none => rfl
    | some result =>
      obtain ⟨report, session'⟩ := result
      have hprint : session'.printTree = session.printTree := printTree_exec hflags hexec
      have hrejected : Rejected session'.reset.printTree source := hprint.symm ▸ h
      dsimp only
      rw [List.length_cons, List.eraseIdx_cons_succ, ih rfl hrejected]

end Session

/-- A rejected unit is invisible. In a session whose flags are cleared after each unit, a text is
rejected exactly if an error about it is reported that is not found while running. Then, whatever is
in the store, nothing is written and nothing but the flags changes, and without the rejected text
the same is reported about all others, which leave the same sessions. A text of which the parser
makes no program is always rejected, and no pass is reached that needs the program. -/
theorem rejected_unit_invisible (session : Session) (hflags : session.flags = {})
    (source : List Char) (fuel : Nat) :
    (∀ report session', session.exec fuel source = some (report, session') →
      (Rejected session.printTree source ↔ ∃ p ∈ report.problems, p.isRuntime = false)) ∧
    (Rejected session.printTree source →
      (∃ report, report.stdout = "" ∧ report.problems ≠ [] ∧
        (∀ p ∈ report.problems, p.isRuntime = false) ∧
        session.exec fuel source = some (report, { session with flags := { error := true } })) ∧
      ∀ before after,
        (session.units fuel (before ++ source :: after)).eraseIdx before.length =
          session.units fuel (before ++ after)) ∧
    ∀ failure, (Program.parse (.ofSource source)).1 = .error failure →
      Rejected session.printTree source ∧
      ∀ report session', session.exec fuel source = some (report, session') →
        ∀ entry, .log entry ∈ report.diagnostics →
          (∃ tokens, entry = .scanned tokens) ∨ entry = .parseFailed := by
  refine ⟨fun report session' => Session.rejected_iff hflags, fun h => ⟨?_, ?_⟩, ?_⟩
  · obtain ⟨report, hrefuses, hexec⟩ := Session.exec_rejected hflags h fuel
    exact ⟨report, hrefuses.stdout, hrefuses.problems, hrefuses.static, hexec⟩
  · exact Session.units_eraseIdx hflags h fuel
  · intro failure hfailure
    refine ⟨.of_failure hfailure _, ?_⟩
    intro report session' hexec entry hentry
    exact Session.log_of_failure hflags hfailure hexec hentry

/-- A return outside of a function keeps the statement before it from being run, but neither the
unit before nor the one after. -/
theorem rejected_unit_invisible_return :
    Rejected false "wandika a; return;".toList ∧
      (({} : Session).units 20 ["var a = true;".toList, "wandika a; return;".toList,
        "wandika a;".toList]).length = 3 ∧
      (({} : Session).units 20 ["var a = true;".toList, "wandika a; return;".toList,
          "wandika a;".toList]).eraseIdx 1 =
        ({} : Session).units 20 ["var a = true;".toList, "wandika a;".toList] := by
  have hexec : ∃ report session',
      ({} : Session).exec 20 "wandika a; return;".toList = some (report, session') ∧
        ∃ p ∈ report.problems, p.isRuntime = false :=
    ⟨_, _, rfl, _, List.mem_singleton_self _, rfl⟩
  obtain ⟨report, session', hexec, hstatic⟩ := hexec
  have h := rejected_unit_invisible {} rfl "wandika a; return;".toList 20
  have hrejected : Rejected false "wandika a; return;".toList :=
    (h.1 report session' hexec).2 hstatic
  exact ⟨hrejected, by decide +kernel,
    (h.2.1 hrejected).2 ["var a = true;".toList] ["wandika a;".toList]⟩

end Wandika
