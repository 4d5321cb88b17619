import Wandika.Proofs.Machine.Lockstep
import Wandika.Proofs.Session.Units

/-!
# A program in pieces

* `Passage.ofUnits`: how code reads when two units are one;
* `Session.exec_eq`: what a session does with a unit;
* `Joined`: the report about a second unit next to the one about both as one;
* `exec_append`: running a program in pieces equals running it whole.
-/

namespace Wandika

/-! ### The code of two units -/

namespace Locals

variable {l m : Locals} {i : Int}

theorem distance?_append_left (h : i < l.size) : Locals.distance? (l ++ m) i = l.distance? i := by
  unfold Locals.distance?
  split_ifs with hi
  · rfl
  · rw [Array.getElem?_append_left (by omega)]

theorem distance?_append_right (h : 0 ≤ i) :
    Locals.distance? (l ++ m) (i + l.size) = m.distance? i := by
  obtain ⟨n, rfl⟩ := Int.eq_ofNat_of_zero_le h
  have hneg : ¬ (n : Int) + l.size < 0 := by omega
  have hto : ((n : Int) + l.size).toNat = l.size + n := by omega
  have hneg' : ¬ (n : Int) < 0 := by omega
  unfold Locals.distance?
  rw [if_neg hneg, if_neg hneg', hto, Array.getElem?_append_right (by omega)]
  simp

end Locals

section Code

variable (a b : SourceUnit) (lines : Nat)

/-- Code that is the same in both runs. -/
def Passage.same (locals : Locals) : Passage := ⟨.refl, locals, locals, Relabel.plain_refl⟩

/-- How the code of a unit reads with another unit below it. -/
def Passage.above : Passage := ⟨.refl, a.locals, a.locals ++ b.locals, Relabel.plain_refl⟩

/-- How the code of a unit reads below another one. -/
def Passage.below : Passage :=
  ⟨.down lines a.program.nodes, b.locals, a.locals ++ b.locals, Relabel.plain_down _ _⟩

/-- How code reads that is older than both units, or comes from one of them. -/
def Passage.ofUnits : Set Passage :=
  { p | (∃ locals, p = .same locals) ∨ p = .above a b ∨ p = .below a b lines }

variable {a b lines}

theorem Passage.takes_same (f : Closure) : (Passage.same f.locals).Takes f f :=
  ⟨rfl, fun i _ => by simp [Passage.same], by simp [Passage.same]⟩

theorem covers_above : (Passage.above a b).Covers (Stmt.idsAll a.program.stmts) := by
  intro i hi
  have hlt : i < a.locals.size := by
    rw [a.size_locals]
    exact (a.inTable i hi).2
  simpa [Passage.above] using Locals.distance?_append_left hlt

theorem covers_below : (Passage.below a b lines).Covers (Stmt.idsAll b.program.stmts) := by
  intro i hi
  simp only [Passage.below, Relabel.down, ← a.size_locals]
  exact Locals.distance?_append_right (b.inTable i hi).1

end Code

/-! ### Reports -/

/-- The problem that many lines further down. -/
def Problem.down (lines : Nat) : Problem → Problem
  | .scan pos message => .scan (pos.down lines) message
  | .parse token message => .parse (token.map (Token.down lines)) message
  | .resolve token message => .resolve (token.map (Token.down lines)) message
  | .runtime token message => .runtime (token.map (Token.down lines)) message
  | .plain message => .plain message

@[simp] theorem Problem.down_zero : Problem.down 0 = id := by
  funext p
  cases p <;> simp [Problem.down]

/-- What a session reports about a unit that it runs to the final state, and what it goes on
with. -/
def Session.outcome (session : Session) (u : SourceUnit) (final : State) : UnitReport × Session :=
  let flags := session.flags.recordAll (final.error?.map (·.problem)).toList
  ({ output := final.output.reverse
     diagnostics :=
      [.log (.scanned (scan u.source).tokens.length),
        .log (.parsed u.program.stmts.length u.program.nodes)] ++
      u.program.resolve.warnings.map .warning ++ [.log (.resolved false)] ++
      (final.error?.map fun e => Diagnostic.problem e.problem).toList ++
      [.log (.interpreted flags.runtimeError)] },
    { session with store := final.store, flags := flags })

section Sessions

variable {session : Session} (u : SourceUnit)

/-- A session that has met no error runs a unit. -/
theorem Session.exec_eq (hflags : session.flags.error = false)
    (hprint : session.printTree = false) (fuel : Nat) :
    session.exec fuel u.source =
      (State.run session.mode fuel
        (State.start session.store u.program.stmts u.locals)).map (session.outcome u) := by
  obtain ⟨mode, printTree, store, flags⟩ := session
  have hresolved := u.resolved
  dsimp only at hflags hprint
  simp only [Session.exec, u.scanned, u.parsed, hflags, hprint, Session.resolveAndRun, hresolved,
    Session.interpret, SourceUnit.locals, List.map_nil, Flags.recordAll_nil, Option.map_none,
    Option.toList_none, Option.map_map, Bool.false_eq_true, if_false]
  congr 1
  funext final
  simp [Session.outcome]

theorem warnings_warnings (ws : List String) :
    (ws.map Diagnostic.warning).filterMap Diagnostic.warning? = ws := by
  rw [List.filterMap_map]
  exact List.filterMap_some

theorem problems_warnings (ws : List String) :
    (ws.map Diagnostic.warning).filterMap Diagnostic.problem? = [] := by
  rw [List.filterMap_map, List.filterMap_eq_nil_iff]
  exact fun _ _ => rfl

variable (final : State)

theorem stdout_outcome :
    (session.outcome u final).1.stdout = String.join (final.output.reverse.map Output.line) := by
  simp [Session.outcome, UnitReport.stdout]

theorem warnings_outcome :
    (session.outcome u final).1.warnings = u.program.resolve.warnings := by
  simp only [Session.outcome, UnitReport.warnings, warnings, List.filterMap_append,
    warnings_warnings]
  cases final.error? <;> simp [List.filterMap_cons, Diagnostic.warning?]

theorem problems_outcome :
    (session.outcome u final).1.problems = (final.error?.map (·.problem)).toList := by
  simp only [Session.outcome, UnitReport.problems, problems, List.filterMap_append,
    problems_warnings]
  cases final.error? <;> simp [List.filterMap_cons, Diagnostic.problem?]

end Sessions

/-! ### Running both units -/

/-- What a unit writes within the first steps that a session runs it. -/
def SourceUnit.written (u : SourceUnit) (session : Session) (steps : Nat) : List Output :=
  ((State.step session.mode)^[steps]
    (State.start session.store u.program.stmts u.locals)).output.reverse

/-- What is reported about a second unit and what the session goes on with, next to the report about
both units as one: the second one stands that many lines further down. -/
structure Joined (a b : SourceUnit) (lines : Nat) (first : UnitReport)
    (second whole : UnitReport × Session) : Prop where
  stdout : whole.1.stdout = first.stdout ++ second.1.stdout
  warnings : ∃ qs : List (Option Token), second.1.warnings = qs.map noElseAt ∧
    whole.1.warnings = first.warnings ++ qs.map (noElseAt ∘ Option.map (Token.down lines))
  problems : whole.1.problems = second.1.problems ∨
    whole.1.problems = second.1.problems.map (Problem.down lines)
  session : whole.2 = { second.2 with store := whole.2.store }
  store : second.2.store.Like (.through (Passage.ofUnits a b lines)) whole.2.store

section Run

variable {a b : SourceUnit} {lines : Nat}

/-- While the first unit is run. -/
def Comparison.first (a b : SourceUnit) (lines : Nat) : Comparison where
  passages := Passage.ofUnits a b lines
  top := .above a b
  next := some (Stmt.relabelAll (.down lines a.program.nodes) b.program.stmts)
  written := []
  top_mem := .inr (.inl rfl)

/-- While the second unit is run. -/
def Comparison.second (a b : SourceUnit) (lines : Nat) (written : List Output) : Comparison where
  passages := Passage.ofUnits a b lines
  top := .below a b lines
  next := none
  written := written
  top_mem := .inr (.inr rfl)

theorem rel_refl (f : Closure) : (Likeness.through (Passage.ofUnits a b lines)).rel f f :=
  ⟨.same f.locals, .inl ⟨_, rfl⟩, Passage.takes_same f⟩

/-- The first unit is begun alike in both runs. -/
theorem like_first (store : Store) :
    (State.start store a.program.stmts a.locals).Like (.first a b lines)
      (State.start store (a.program.append b.program (.down lines a.program.nodes)).stmts
        (a.locals ++ b.locals)) := by
  have hadmits : ∀ s ∈ a.program.stmts, (Comparison.first a b lines).bottom.Admits s := fun s hs =>
    ⟨Passage.covers_idsAll.1 covers_above s hs, by simp [a.returns_eq_false s hs]⟩
  have hwaits := Waits.last hadmits
  have hstmts : a.program.stmts.map (Stmt.relabel (Comparison.first a b lines).top.toRelabel) =
      a.program.stmts := by
    rw [← Stmt.relabelAll_eq]
    exact Stmt.relabelAll_refl _
  rw [hstmts] at hwaits
  exact .live _ ⟨(Comparison.first a b lines).top_mem, rfl, rfl, hwaits,
    Store.Like.refl rel_refl store, rfl⟩ .next

/-- The second unit is begun alike in both runs. -/
theorem like_second {store store' : Store} (written : List Output)
    (hstore : store.Like (.through (Passage.ofUnits a b lines)) store') :
    (State.start store b.program.stmts b.locals).Like (.second a b lines written)
      (.startAfter written store'
        (Stmt.relabelAll (.down lines a.program.nodes) b.program.stmts)
        (a.locals ++ b.locals)) := by
  have hadmits : ∀ s ∈ b.program.stmts, (Comparison.second a b lines written).bottom.Admits s :=
    fun s hs => ⟨Passage.covers_idsAll.1 covers_below s hs, by simp [b.returns_eq_false s hs]⟩
  have hwaits := Waits.last hadmits
  have hnone : (Comparison.second a b lines written).next.getD [] = [] := rfl
  rw [← Stmt.relabelAll_eq, hnone, List.append_nil] at hwaits
  exact .live _ ⟨(Comparison.second a b lines written).top_mem, rfl, rfl, hwaits, hstore, rfl⟩ .next

/-- Errors of like states are the same, or they are the same further down. -/
theorem problems_ends {s t : State} {written : List Output}
    (h : Ends (.second a b lines written) s.control t.control) :
    (t.error?.map (·.problem)).toList = (s.error?.map (·.problem)).toList ∨
      (t.error?.map (·.problem)).toList =
        ((s.error?.map (·.problem)).toList).map (Problem.down lines) := by
  unfold State.error?
  generalize s.control = x at h ⊢
  generalize t.control = y at h ⊢
  cases h with
  | next => exact .inl rfl
  | @raise e e' he =>
    obtain ⟨p, ⟨locals, rfl⟩ | rfl | rfl, rfl⟩ := he
    · left
      simp [RuntimeError.problem, Passage.same]
    · left
      simp [RuntimeError.problem, Passage.above]
    · right
      simp [RuntimeError.problem, Passage.below, Relabel.down, Problem.down]

theorem flags_ends {s t : State} {written : List Output}
    (h : Ends (.second a b lines written) s.control t.control) (flags : Flags) :
    flags.recordAll (t.error?.map (·.problem)).toList =
      flags.recordAll (s.error?.map (·.problem)).toList := by
  unfold State.error?
  generalize s.control = x at h ⊢
  generalize t.control = y at h ⊢
  cases h <;> rfl

/-- What is reported about like final states of the second unit. -/
theorem joined_outcome {session : Session} {whole : SourceUnit} {s t last : State}
    (hprogram : whole.program = a.program.append b.program (.down lines a.program.nodes))
    (h : s.Like (.second a b lines last.output) t) (hs : s.halted = true) (store : Store) :
    Joined a b lines (session.outcome a last).1 ({ session with store }.outcome b s)
      (session.outcome whole t) := by
  obtain ⟨-, hends, hstore, houtput⟩ := h.ends (.inl hs)
  obtain ⟨-, -, qs, hqs, hwarnings⟩ := a.resolve_append b lines
  constructor
  · have houtput : t.output = s.output ++ last.output := houtput
    rw [stdout_outcome, stdout_outcome, stdout_outcome, houtput, List.reverse_append,
      List.map_append, String.join_append]
  · rw [warnings_outcome, warnings_outcome, warnings_outcome, hprogram]
    exact ⟨qs, hqs, hwarnings⟩
  · rw [problems_outcome, problems_outcome]
    exact problems_ends hends
  · simp only [Session.outcome, flags_ends hends]
  · exact hstore

/-- Running two units, one after the other, and running them as one. -/
theorem exec_join {session : Session} (hflags : session.flags.error = false)
    (hprint : session.printTree = false) {whole : SourceUnit}
    (hprogram : whole.program = a.program.append b.program (.down lines a.program.nodes))
    {fuel : Nat} {first : UnitReport} {middle : Session}
    (hfirst : session.exec fuel a.source = some (first, middle)) (hok : first.problems = []) :
    middle = { session with store := middle.store } ∧ ∃ n,
      (∀ fuel, Option.Rel (Joined a b lines first) (middle.exec fuel b.source)
        (session.exec (n + fuel) whole.source)) ∧
      ∀ steps, whole.written session (n + steps) = first.output ++ b.written middle steps := by
  rw [Session.exec_eq a hflags hprint] at hfirst
  obtain ⟨last, hrun, e⟩ := Option.map_eq_some_iff.1 hfirst
  obtain rfl : (session.outcome a last).1 = first := congrArg Prod.fst e
  obtain rfl : (session.outcome a last).2 = middle := congrArg Prod.snd e
  have hlast : last.error? = none := by
    rw [problems_outcome] at hok
    simpa using hok
  have hmiddle : (session.outcome a last).2 = { session with store := last.store } := by
    simp [Session.outcome, hlast]
  have hlocals : whole.locals = a.locals ++ b.locals := by
    rw [SourceUnit.locals, hprogram]
    exact (a.resolve_append b lines).2.1
  -- the steps of the first unit are the first steps of the whole
  obtain ⟨n, store, hn, hstore⟩ := State.Like.run_first rfl hlast (like_first session.store) hrun
  have hn : (State.step session.mode)^[n]
      (State.start session.store whole.program.stmts whole.locals) =
      .startAfter last.output store
        (Stmt.relabelAll (.down lines a.program.nodes) b.program.stmts) (a.locals ++ b.locals) := by
    rw [hprogram, hlocals, hn, show (Comparison.first a b lines).written = [] from rfl,
      List.append_nil]
    rfl
  have hlike := like_second last.output hstore
  refine ⟨by rw [hmiddle], n, fun fuel => ?_, fun steps => ?_⟩
  · have hruns : Option.Rel _ (State.run session.mode fuel _) _ := hlike.run_rel rfl fuel
    rw [hmiddle, Session.exec_eq b (by exact hflags) (by exact hprint),
      Session.exec_eq whole hflags hprint, State.run_add, hn]
    exact rel_map hruns fun h => joined_outcome hprogram h.1 h.2 last.store
  · have hsteps : ((State.step session.mode)^[steps] _).Like _ _ := hlike.iterate rfl steps
    rw [hmiddle, SourceUnit.written, Nat.add_comm, Function.iterate_add_apply, hn,
      hsteps.output_eq, List.reverse_append]
    rfl

/-- If no line is to go, warnings and errors are exactly the same. -/
theorem Joined.exact {first : UnitReport} {second whole : UnitReport × Session}
    (h : Joined a b 0 first second whole) :
    whole.1.warnings = first.warnings ++ second.1.warnings ∧
      whole.1.problems = second.1.problems := by
  obtain ⟨qs, hqs, hwarnings⟩ := h.warnings
  refine ⟨by rw [hwarnings, hqs]; simp, h.problems.elim id fun hp => ?_⟩
  rw [hp, Problem.down_zero, List.map_id]

/-- The table is all that passages take from the second unit. -/
theorem Joined.congr {b' : SourceUnit} (hlocals : b'.locals = b.locals) {first : UnitReport}
    {second whole : UnitReport × Session} (h : Joined a b' lines first second whole) :
    Joined a b lines first second whole := by
  have hpassages : Passage.ofUnits a b' lines = Passage.ofUnits a b lines := by
    simp only [Passage.ofUnits, Passage.above, Passage.below, hlocals]
  exact ⟨h.stdout, h.warnings, h.problems, h.session, hpassages ▸ h.store⟩

end Run

/-- Running a program in pieces equals running it whole. Let a session run a unit without an error
and then another one, and let the same session run both as one unit, the second below the first.
Then this takes the steps of the first unit and as many more as the second one takes. What is
written, what is warned about, the error at the end if there is one, and all that the session keeps
are the same, except that what comes from the text of the second unit stands further down, by one
line more than the first has line feeds, and that functions look their nodes up in the table of
both.

Blank lines before the second unit tell what comes from its text: they move it down as well, so that
it has fewer lines to go. With as many of them as it has to go, nothing moves (`Joined.exact`). -/
theorem exec_append (session : Session) (hflags : session.flags.error = false)
    (hprint : session.printTree = false) (a b : SourceUnit) {fuel : Nat} {first : UnitReport}
    {middle : Session} (hfirst : session.exec fuel a.source = some (first, middle))
    (hok : first.problems = []) {blank : Nat} (hblank : blank ≤ a.source.count '\n' + 1) :
    middle = { session with store := middle.store } ∧
      ∃ (whole : SourceUnit) (n : Nat), whole.source = a.source ++ '\n' :: b.source ∧
        (∀ fuel, Option.Rel (Joined a b (a.source.count '\n' + 1 - blank) first)
          (middle.exec fuel (List.replicate blank '\n' ++ b.source))
          (session.exec (n + fuel) (a.source ++ '\n' :: b.source))) ∧
        ∀ steps, whole.written session (n + steps) =
          first.output ++ (b.below blank).written middle steps := by
  let lines := a.source.count '\n' + 1 - blank
  let whole := SourceUnit.join a (b.below blank) lines (a.source ++ '\n' :: b.source)
    (errors_below a.scanned b.scanned) (a.tokens_append b hblank)
  have hprogram : whole.program =
      a.program.append (b.below blank).program (.down lines a.program.nodes) := rfl
  obtain ⟨hmiddle, n, hexec, hwritten⟩ := exec_join hflags hprint hprogram hfirst hok
  refine ⟨hmiddle, whole, n, rfl, fun fuel => ?_, hwritten⟩
  exact rel_mono (hexec fuel) fun h => h.congr (b.locals_below blank)

/-- A function of the first unit fails when the second one calls it. -/
theorem exec_append_failing_call :
    ∃ (a b : SourceUnit) (first : UnitReport) (middle : Session)
      (second whole : UnitReport × Session) (n : Nat),
      SourceUnit.ofSource? "func f(x) \x7b\n return x.y; \x7d".toList = some a ∧
      SourceUnit.ofSource? "f(true);".toList = some b ∧
      ({} : Session).exec 5 a.source = some (first, middle) ∧ first.problems = [] ∧
      middle.exec 30 b.source = some second ∧ second.1.problems.length = 1 ∧
      ({} : Session).exec (n + 30) (a.source ++ '\n' :: b.source) = some whole ∧
      Joined a b 2 first second whole := by
  obtain ⟨a, b, first, middle, second, ha, hb, hcount, hfirst, hok, hsecond, hfails⟩ :
      ∃ (a b : SourceUnit) (first : UnitReport) (middle : Session) (second : UnitReport × Session),
        SourceUnit.ofSource? "func f(x) \x7b\n return x.y; \x7d".toList = some a ∧
        SourceUnit.ofSource? "f(true);".toList = some b ∧ a.source.count '\n' = 1 ∧
        ({} : Session).exec 5 a.source = some (first, middle) ∧ first.problems = [] ∧
        middle.exec 30 b.source = some second ∧ second.1.problems.length = 1 :=
    ⟨_, _, _, _, _, rfl, rfl, rfl, rfl, rfl, rfl, rfl⟩
  obtain ⟨-, -, n, -, hexec, -⟩ := exec_append {} rfl rfl a b hfirst hok (Nat.zero_le _)
  have hrel := hexec 30
  rw [List.replicate_zero, List.nil_append, hsecond, hcount] at hrel
  generalize hwhole : ({} : Session).exec (n + 30) (a.source ++ '\n' :: b.source) = whole at hrel
  cases hrel with
  | some hjoined =>
    exact ⟨a, b, first, middle, second, _, n, ha, hb, hfirst, hok, hsecond, hfails, hwhole, hjoined⟩

end Wandika
