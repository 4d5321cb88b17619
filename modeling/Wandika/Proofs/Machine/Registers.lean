import Wandika.Proofs.Machine.Endings
import Wandika.Proofs.Machine.Moves

/-!
# Registers

Whatever changes the registers leaves a mark on the stack that restores them. A step that is neither
the beginning nor the end of a block or a call changes neither registers nor marks.

* `State.marks`, `State.Shift`: the marks of a state, and how a step changes them together with the
  registers;
* `State.shift_step`: no step changes them in another way;
* `Registers.unwind`: the registers that are left when every mark has been passed;
* `registers_restored`: code that is finished leaves the registers as it found them.
-/

namespace Wandika

namespace State

/-- The marks on the stack. -/
def marks (s : State) : List Pending :=
  s.stack.filter Pending.isMark

/-- How a step changes the registers and the marks: not at all, by beginning or ending a block, or
by beginning or ending a call. -/
inductive Shift (mode : Mode) (s t : State) : Prop
  | works (marks : t.marks = s.marks) (registers : t.registers = s.registers)
  | opens (frame : FrameId) (marks : t.marks = .leaveBlock s.registers.frame :: s.marks)
      (registers : t.registers = { s.registers with frame })
  | enters (frame : FrameId) (locals : Locals) (marks : t.marks = .leaveCall s.registers :: s.marks)
      (registers : t.registers = ⟨frame, locals, s.registers.depth + 1⟩)
      (limit : s.atLimit mode = false)
  | leavesBlock (frame : FrameId) (marks : s.marks = .leaveBlock frame :: t.marks)
      (registers : t.registers = { s.registers with frame })
  | leavesCall (marks : s.marks = .leaveCall t.registers :: t.marks)

variable {mode : Mode} {s t : State}

theorem Move.shift (h : Move mode s t) : Shift mode s t := by
  cases h with
  | rests same =>
    subst same
    exact .works rfl rfl
  | goes control stack registers => exact .works (by rw [marks, marks, stack]) registers
  | pushes e k awaits push =>
    subst push
    have hk := Control.isMark_of_awaits? awaits
    exact .works (by simp [marks, push, hk]) rfl
  | drops k stack work registers => exact .works (by simp [marks, stack, work]) registers
  | replaces k k' ks before after work later registers =>
    have hk' : k'.isMark = false := Pending.isMark_of_isLater later
    exact .works (by simp [marks, before, after, work, hk']) registers
  | opens body control stack registers size =>
    refine .opens _ ?_ registers
    rw [marks, stack]
    rfl
  | enters k ks f before work after registers size limit =>
    have hmarks : s.marks = ks.filter Pending.isMark := by simp [marks, before, work]
    refine .enters _ _ ?_ registers limit
    rw [hmarks, marks, after]
    rfl
  | leavesBlock frame stack registers =>
    refine .leavesBlock frame ?_ registers
    rw [marks, stack]
    rfl
  | leavesCall stack =>
    refine .leavesCall ?_
    rw [marks, stack]
    rfl

/-- What a step does to registers and marks. -/
theorem shift_step (mode : Mode) (s : State) : Shift mode s (s.step mode) :=
  (move_step mode s).shift

end State

/-! ### Restoring -/

/-- The registers after an outcome has passed work that waits. -/
def Pending.restore (k : Pending) (r : Registers) : Registers :=
  match k with
  | .leaveBlock frame => { r with frame }
  | .leaveCall saved => saved
  | _ => r

/-- The registers after an outcome has passed all marks. -/
def Registers.unwind (r : Registers) : List Pending → Registers
  | [] => r
  | k :: ks => (k.restore r).unwind ks

namespace State

variable {mode : Mode} {s t : State} {n : Nat}

theorem Shift.unwind_eq (h : Shift mode s t) :
    t.registers.unwind t.marks = s.registers.unwind s.marks := by
  cases h with
  | works marks registers => rw [marks, registers]
  | opens frame marks registers =>
    rw [marks, registers]
    rfl
  | enters frame locals marks registers =>
    rw [marks, registers]
    rfl
  | leavesBlock frame marks registers =>
    rw [marks, registers]
    rfl
  | leavesCall marks =>
    rw [marks]
    rfl

theorem unwind_iterate (mode : Mode) (s : State) (n : Nat) :
    ((step mode)^[n] s).registers.unwind ((step mode)^[n] s).marks =
      s.registers.unwind s.marks := by
  induction n with
  | zero => rfl
  | succ n ih =>
    rw [Function.iterate_succ_apply', ← ih]
    exact (shift_step mode _).unwind_eq

theorem Finishes.registers_eq (h : s.Finishes mode n t) : t.registers = s.registers := by
  obtain ⟨-, hhalted, rfl⟩ := finishes_iff.1 h
  have hunwind := unwind_iterate mode s.alone n
  have hmarks : ((step mode)^[n] s.alone).marks = [] := by
    rw [marks, (halted_iff.1 hhalted).2]
    rfl
  rw [hmarks] at hunwind
  exact hunwind

end State

/-- Code that is finished leaves the registers as it found them. From whatever state an expression
or a statement is run, and whether it ends with a value, a completion, a return or an error, the
current frame, the current table and the number of calls are afterwards what they were before; and
it does end so if the machine halts. So when a unit has been run, with an error or without, the
current frame is the global one and no call is in progress. -/
theorem registers_restored (mode : Mode) :
    (∀ (s t : State) (n : Nat), s.Finishes mode n t →
      (∀ e, s.control = .eval e →
        (∃ v, t.control = .value v) ∨ ∃ error, t.control = .raise error) ∧
      (∀ x, s.control = .exec x →
        (∃ c, t.control = .done c) ∨ ∃ error, t.control = .raise error) ∧
      t.registers = s.registers) ∧
    (∀ (s final : State) (fuel : Nat), State.run mode fuel s = some final →
      ∃ n t, n ≤ fuel ∧ s.Finishes mode n t) ∧
    ∀ (store : Store) (stmts : List Stmt) (locals : Locals) (fuel : Nat) (final : State),
      State.run mode fuel (State.start store stmts locals) = some final →
      final.registers = ⟨globalFrame, locals, 0⟩ := by
  refine ⟨fun s t n h => ⟨fun e => h.of_eval, fun x => h.of_exec, h.registers_eq⟩, ?_, ?_⟩
  · intro s final fuel h
    obtain ⟨n, t, hn, hfinishes, -⟩ := State.exists_finishes h
    exact ⟨n, t, hn, hfinishes⟩
  · intro store stmts locals fuel final h
    obtain ⟨rfl, hhalted⟩ := State.run_eq_some_iff.1 h
    have hunwind := State.unwind_iterate mode (State.start store stmts locals) fuel
    have hmarks : ((State.step mode)^[fuel] (State.start store stmts locals)).marks = [] := by
      rw [State.marks, (State.halted_iff.1 hhalted).2]
      rfl
    rw [hmarks] at hunwind
    exact hunwind

/-- An error that leaves a block within a call restores what both of them changed. -/
theorem registers_restored_failing_call :
    ∃ (u : SourceUnit) (raised final : State),
      SourceUnit.ofSource? "func f() \x7b \x7b x; \x7d \x7d f();".toList = some u ∧
      (State.step {})^[12] (State.start Store.empty u.program.stmts u.locals) = raised ∧
      raised.registers.depth = 1 ∧ raised.registers.frame = 2 ∧
      State.run {} 20 (State.start Store.empty u.program.stmts u.locals) = some final ∧
      final.error?.isSome = true ∧ final.registers = ⟨globalFrame, u.locals, 0⟩ := by
  obtain ⟨u, raised, final, hu, hraised, hdepth, hframe, hrun, herror⟩ :
      ∃ (u : SourceUnit) (raised final : State),
        SourceUnit.ofSource? "func f() \x7b \x7b x; \x7d \x7d f();".toList = some u ∧
        (State.step {})^[12] (State.start Store.empty u.program.stmts u.locals) = raised ∧
        raised.registers.depth = 1 ∧ raised.registers.frame = 2 ∧
        State.run {} 20 (State.start Store.empty u.program.stmts u.locals) = some final ∧
        final.error?.isSome = true :=
    ⟨_, _, _, rfl, rfl, rfl, rfl, rfl, rfl⟩
  refine ⟨u, raised, final, hu, hraised, hdepth, hframe, hrun, herror, ?_⟩
  exact (registers_restored {}).2.2 Store.empty u.program.stmts u.locals 20 final hrun

end Wandika
