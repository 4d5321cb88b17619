import Wandika.Proofs.Machine.Endings
import Wandika.Proofs.Machine.Raising
import Wandika.Proofs.Session.Joined

/-!
# The statements of a unit, one after another

* `State.Performs`: statements that are executed in order, with the steps this takes;
* `State.performs_or_raises`: a list of statements is executed to its end, or up to the first that
  ends with an error;
* `State.Interrupted`: the course of a run up to its first error and after it;
* `statements_in_order`: what a session does with the statements of a unit.
-/

namespace Wandika

namespace State

variable {mode : Mode} {s t final : State} {x : Stmt} {xs : List Stmt} {n fuel : Nat}
  {e : RuntimeError}

/-- Statements are executed one after another within some steps: each is begun by one step, runs to
its end and completes with the next one. -/
inductive Performs (mode : Mode) : State → List Stmt → Nat → State → Prop
  | nothing (s : State) : Performs mode s [] 0 s
  | next {s t u : State} {x : Stmt} {xs : List Stmt} {n m : Nat}
      (begins : (s.step mode).control = .exec x) (finishes : (s.step mode).Finishes mode n t)
      (completes : t.control = .done .next) (rest : Performs mode t xs m u) :
      Performs mode s (x :: xs) (m + (n + 1)) u

theorem Performs.reaches (h : Performs mode s xs n t) : (step mode)^[n] s = t := by
  induction h with
  | nothing s => rfl
  | next begins finishes completes rest ih =>
    rw [Function.iterate_add_apply, Function.iterate_succ_apply, finishes.reaches]
    exact ih

/-- The first statement of a sequence is begun. -/
theorem step_sequence (mode : Mode) (hcontrol : s.control = .done .next)
    (hstack : s.stack = [.sequence (x :: xs)]) :
    (s.step mode).control = .exec x ∧ (s.step mode).stack = [.sequence xs] := by
  obtain ⟨control, stack, registers, store, output⟩ := s
  dsimp only at hcontrol hstack
  subst hcontrol hstack
  exact ⟨rfl, rfl⟩

/-- After the last statement of a sequence the machine halts. -/
theorem run_sequence_nil (hcontrol : s.control = .done .next) (hstack : s.stack = [.sequence []])
    (hrun : run mode fuel s = some final) :
    final.control = .done .next ∧ final.store = s.store ∧ final.output = s.output := by
  obtain ⟨control, stack, registers, store, output⟩ := s
  dsimp only at hcontrol hstack
  subst hcontrol hstack
  have hstep := run_step hrun
  rw [run_of_halted rfl] at hstep
  cases hstep
  exact ⟨rfl, rfl, rfl⟩

/-- In a run that halts, statements that do not return are all executed, or up to one that ends with
an error. -/
theorem performs_or_raises (hcontrol : s.control = .done .next) (hstack : s.stack = [.sequence xs])
    (hreturns : ∀ x ∈ xs, x.returns = false) (hrun : run mode fuel s = some final) :
    (∃ n t, Performs mode s xs n t ∧ final.control = .done .next ∧ final.store = t.store ∧
      final.output = t.output) ∨
    ∃ before x after m t n u e, xs = before ++ x :: after ∧ Performs mode s before m t ∧
      (t.step mode).control = .exec x ∧ (t.step mode).Finishes mode n u ∧
      u.control = .raise e := by
  induction xs generalizing s fuel with
  | nil => exact .inl ⟨0, s, .nothing s, run_sequence_nil hcontrol hstack hrun⟩
  | cons x xs ih =>
    obtain ⟨hbegins, hrest⟩ := step_sequence mode hcontrol hstack
    obtain ⟨n, t, -, hfinishes, hrun⟩ := exists_finishes (run_step hrun)
    rcases hfinishes.of_returns hbegins (hreturns x List.mem_cons_self) with hnext | ⟨e, hraise⟩
    · rcases ih hnext (hfinishes.stack.trans hrest)
          (fun y hy => hreturns y (List.mem_cons_of_mem x hy)) hrun with
        ⟨m, u, hall, hfinal⟩ | ⟨before, y, after, m, u, k, w, e, rfl, hall, hlast⟩
      · exact .inl ⟨_, u, .next hbegins hfinishes hnext hall, hfinal⟩
      · exact .inr ⟨x :: before, y, after, _, u, k, w, e, rfl,
          .next hbegins hfinishes hnext hall, hlast⟩
    · exact .inr ⟨[], x, xs, 0, s, n, t, e, rfl, .nothing s, hbegins, hfinishes, hraise⟩

/-- Statements are executed up to the one in which the first error is raised, by the step `k`. -/
structure Interrupted (mode : Mode) (s : State) (xs : List Stmt) (e : RuntimeError) (k : Nat) :
    Prop where
  /-- No error was raised before. -/
  first : ∀ m < k, ∀ e', ((step mode)^[m] s).control ≠ .raise e'
  /-- From then on nothing but the error is left: store and output stay as they are. -/
  frozen : ∀ m ≥ k, ((step mode)^[m] s).control = .raise e ∧
    ((step mode)^[m] s).store = ((step mode)^[k] s).store ∧
    ((step mode)^[m] s).output = ((step mode)^[k] s).output
  /-- The statements before the one that fails have been executed; its execution begins after the
  step `i` and takes the steps up to `j`, among which is `k`. -/
  during : ∃ before x after i j, xs = before ++ x :: after ∧
    s.Performs mode before i ((step mode)^[i] s) ∧ ((step mode)^[i + 1] s).control = .exec x ∧
    ((step mode)^[i + 1] s).Finishes mode (j - (i + 1)) ((step mode)^[j] s) ∧ i + 1 < k ∧ k ≤ j

/-- Statements that do not return are all executed without an error, or up to the first error, and
the run ends with what was then in the store and written. -/
theorem performs_or_interrupted (hcontrol : s.control = .done .next)
    (hstack : s.stack = [.sequence xs]) (hreturns : ∀ x ∈ xs, x.returns = false)
    (hrun : run mode fuel s = some final) :
    (∃ n, s.Performs mode xs n ((step mode)^[n] s) ∧
      (∀ m e, ((step mode)^[m] s).control ≠ .raise e) ∧ final.control = .done .next ∧
      final.store = ((step mode)^[n] s).store ∧ final.output = ((step mode)^[n] s).output) ∨
    ∃ e k, s.Interrupted mode xs e k ∧ final.control = .raise e ∧
      final.store = ((step mode)^[k] s).store ∧ final.output = ((step mode)^[k] s).output := by
  rcases performs_or_raises hcontrol hstack hreturns hrun with
    ⟨n, t, hall, hnext, hsame⟩ |
      ⟨before, x, after, i, t, n, u, e, hxs, hbefore, hbegins, hfinishes, hraise⟩
  · left
    have hnone : ∀ m e, ((step mode)^[m] s).control ≠ .raise e := by
      intro m e hm
      rw [(final_of_raise hrun hm).1] at hnext
      cases hnext
    obtain rfl := hall.reaches
    exact ⟨n, hall, hnone, hnext, hsame⟩
  · right
    obtain rfl := hbefore.reaches
    obtain rfl := hfinishes.reaches
    rw [← Function.iterate_succ_apply' (step mode) i s] at hbegins hfinishes hraise
    rw [← Function.iterate_add_apply] at hfinishes hraise
    obtain ⟨k, hle, hfirst, hfrozen⟩ := exists_first_raise hraise
    refine ⟨e, k, ⟨hfirst, hfrozen, ?_⟩, final_of_raise hrun (hfrozen k le_rfl).1⟩
    refine ⟨before, x, after, i, n + (i + 1), hxs, hbefore, hbegins, ?_, ?_, hle⟩
    · rwa [Nat.add_sub_cancel]
    · -- an error that was raised before the statement was begun would still be there
      by_contra hlate
      rw [(hfrozen (i + 1) (not_lt.1 hlate)).1] at hbegins
      cases hbegins

end State

/-- A unit whose statements passed the analysis is run in order, up to its first error. In whatever
state a statement of it is executed, it does not end with a return. So when a session has run the
unit, either all its statements were executed in order, no error was raised and none is reported; or
one error is reported, the first that was raised, and from then on nothing was written, the store
did not change and no further statement was executed. -/
theorem statements_in_order (u : SourceUnit) (session : Session)
    (hflags : session.flags.error = false) (hprint : session.printTree = false) :
    let start := State.start session.store u.program.stmts u.locals
    let state := fun n => (State.step session.mode)^[n] start
    (∀ x ∈ u.program.stmts, ∀ (mode : Mode) (s t : State) (n : Nat), s.control = .exec x →
      s.Finishes mode n t → t.control = .done .next ∨ ∃ e, t.control = .raise e) ∧
    ∀ fuel report session', session.exec fuel u.source = some (report, session') →
      (report.problems = [] ∧ ∃ n, start.Performs session.mode u.program.stmts n (state n) ∧
        (∀ m e, (state m).control ≠ .raise e) ∧
        session'.store = (state n).store ∧ report.output = (state n).output.reverse) ∨
      ∃ e k, report.problems = [e.problem] ∧
        start.Interrupted session.mode u.program.stmts e k ∧
        session'.store = (state k).store ∧ report.output = (state k).output.reverse := by
  intro start state
  refine ⟨?_, ?_⟩
  · intro x hx mode s t n hs h
    exact h.of_returns hs (u.returns_eq_false x hx)
  · intro fuel report session' hexec
    rw [Session.exec_eq u hflags hprint] at hexec
    obtain ⟨final, hrun, houtcome⟩ := Option.map_eq_some_iff.1 hexec
    have hproblems : report.problems = (final.error?.map (·.problem)).toList := by
      cases houtcome
      exact problems_outcome u final
    have hstore' : session'.store = final.store := by
      cases houtcome
      rfl
    have houtput' : report.output = final.output.reverse := by
      cases houtcome
      rfl
    rcases State.performs_or_interrupted (s := start) rfl rfl u.returns_eq_false hrun with
      ⟨n, hall, hnone, hnext, hstore, houtput⟩ | ⟨e, k, hstops, hraise, hstore, houtput⟩
    · left
      have herror : final.error? = none := by rw [State.error?, hnext]
      rw [herror] at hproblems
      rw [houtput] at houtput'
      exact ⟨hproblems, n, hall, hnone, hstore'.trans hstore, houtput'⟩
    · right
      rw [State.error?_eq_some_iff.2 hraise] at hproblems
      rw [houtput] at houtput'
      exact ⟨e, k, hproblems, hstops, hstore'.trans hstore, houtput'⟩

/-- The third of four statements fails within a call: only the second one has written. -/
theorem statements_in_order_failing_call :
    ∃ (u : SourceUnit) (report : UnitReport) (session' : Session) (e : RuntimeError) (k : Nat),
      u.source = "func f(x) \x7b return x.y; \x7d wandika f; f(true); wandika f;".toList ∧
      ({} : Session).exec 50 u.source = some (report, session') ∧ report.output.length = 1 ∧
      report.problems = [e.problem] ∧
      (State.start Store.empty u.program.stmts u.locals).Interrupted {} u.program.stmts e k := by
  have h : (match SourceUnit.ofSource?
        "func f(x) \x7b return x.y; \x7d wandika f; f(true); wandika f;".toList with
      | some u =>
          match ({} : Session).exec 50 u.source with
          | some (report, _) =>
              decide (u.source =
                  "func f(x) \x7b return x.y; \x7d wandika f; f(true); wandika f;".toList ∧
                report.output.length = 1 ∧ report.problems.length = 1)
          | none => false
      | none => false) = true := by decide +kernel
  split at h
  · rename_i u hu
    split at h
    · rename_i report session' hexec
      obtain ⟨hsource, hwritten, hone⟩ := of_decide_eq_true h
      rcases (statements_in_order u {} rfl rfl).2 50 report session' hexec with
        ⟨hnone, -⟩ | ⟨e, k, hproblem, hstops, -⟩
      · rw [hnone] at hone
        cases hone
      · exact ⟨u, report, session', e, k, hsource, hexec, hwritten, hproblem, hstops⟩
    · cases h
  · cases h

end Wandika
