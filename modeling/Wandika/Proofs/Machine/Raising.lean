import Wandika.Proofs.Machine.Extent

/-!
# Errors on their way out

An error that has been raised drops the work that waits, piece by piece, until nothing waits. On its
way nothing is written and nothing in the store changes.

* `State.iterate_raise`: what the states after an error have in common;
* `State.exists_first_raise`: the first error is the only one;
* `State.exists_run_of_raise`, `State.final_of_raise`: the run ends with the error.
-/

namespace Wandika

namespace State

variable {s : State} {e : RuntimeError}

theorem step_raise (mode : Mode) (h : s.control = .raise e) :
    (s.step mode).control = .raise e ∧ (s.step mode).store = s.store ∧
      (s.step mode).output = s.output ∧ (s.step mode).stack = s.stack.tail := by
  obtain ⟨control, stack, registers, store, output⟩ := s
  dsimp only at h
  subst h
  cases stack with
  | nil => exact ⟨rfl, rfl, rfl, rfl⟩
  | cons k ks => cases k <;> exact ⟨rfl, rfl, rfl, rfl⟩

/-- Once an error has been raised it stays the control, and store and output stay the same. -/
theorem iterate_raise (mode : Mode) (h : s.control = .raise e) (n : Nat) :
    ((step mode)^[n] s).control = .raise e ∧ ((step mode)^[n] s).store = s.store ∧
      ((step mode)^[n] s).output = s.output ∧
      ((step mode)^[n] s).stack = s.stack.drop n := by
  induction n with
  | zero => exact ⟨h, rfl, rfl, rfl⟩
  | succ n ih =>
    obtain ⟨hcontrol, hstore, houtput, hstack⟩ := ih
    obtain ⟨hcontrol', hstore', houtput', hstack'⟩ := step_raise mode hcontrol
    rw [Function.iterate_succ_apply']
    refine ⟨hcontrol', hstore'.trans hstore, houtput'.trans houtput, ?_⟩
    rw [hstack', hstack, List.tail_drop]

/-- The first error that is raised is the only one: from then on nothing is left but it, and store
and output stay as they are. -/
theorem exists_first_raise {mode : Mode} {m : Nat} (h : ((step mode)^[m] s).control = .raise e) :
    ∃ k ≤ m, (∀ j < k, ∀ e', ((step mode)^[j] s).control ≠ .raise e') ∧
      ∀ j ≥ k, ((step mode)^[j] s).control = .raise e ∧
        ((step mode)^[j] s).store = ((step mode)^[k] s).store ∧
        ((step mode)^[j] s).output = ((step mode)^[k] s).output := by
  have hex : ∃ k e', ((step mode)^[k] s).control = .raise e' := ⟨m, e, h⟩
  classical
  obtain ⟨e', hk⟩ := Nat.find_spec hex
  have hlast : ∀ j ≥ Nat.find hex, ((step mode)^[j] s).control = .raise e' ∧
      ((step mode)^[j] s).store = ((step mode)^[Nat.find hex] s).store ∧
      ((step mode)^[j] s).output = ((step mode)^[Nat.find hex] s).output := by
    intro j hj
    obtain ⟨d, rfl⟩ := Nat.exists_eq_add_of_le' hj
    obtain ⟨hcontrol, hstore, houtput, -⟩ := iterate_raise mode hk d
    rw [← Function.iterate_add_apply] at hcontrol hstore houtput
    exact ⟨hcontrol, hstore, houtput⟩
  have hle : Nat.find hex ≤ m := Nat.find_min' hex ⟨e, h⟩
  obtain rfl : e = e' := Control.raise.inj (h.symm.trans (hlast m hle).1)
  refine ⟨Nat.find hex, hle, ?_, hlast⟩
  intro j hj e'' hraise
  exact Nat.find_min hex hj ⟨e'', hraise⟩

/-- A run in which an error has been raised ends with it. -/
theorem exists_run_of_raise (mode : Mode) (h : s.control = .raise e) :
    ∃ fuel final, run mode fuel s = some final ∧ final.error? = some e ∧
      final.store = s.store ∧ final.output = s.output := by
  obtain ⟨hcontrol, hstore, houtput, hstack⟩ := iterate_raise mode h s.stack.length
  refine ⟨s.stack.length, _, run_eq_some_iff.2 ⟨rfl, halted_iff.2 ⟨?_, ?_⟩⟩, ?_, hstore, houtput⟩
  · rw [hcontrol]
    rfl
  · rw [hstack, List.drop_length]
  · rw [error?, hcontrol]

/-- An error that has been raised somewhere in a run is the one it ends with, and store and output
are at the end what they were then. -/
theorem final_of_raise {mode : Mode} {fuel m : Nat} {final : State}
    (hrun : run mode fuel s = some final) (h : ((step mode)^[m] s).control = .raise e) :
    final.control = .raise e ∧ final.store = ((step mode)^[m] s).store ∧
      final.output = ((step mode)^[m] s).output := by
  obtain ⟨hfinal, hhalted⟩ := run_eq_some_iff.1 hrun
  have hend : (step mode)^[fuel] ((step mode)^[m] s) = final := by
    rw [← Function.iterate_add_apply, Nat.add_comm, Function.iterate_add_apply, hfinal,
      iterate_of_halted hhalted]
  obtain ⟨hcontrol, hstore, houtput, -⟩ := iterate_raise mode h fuel
  rw [hend] at hcontrol hstore houtput
  exact ⟨hcontrol, hstore, houtput⟩

theorem error?_eq_some_iff : s.error? = some e ↔ s.control = .raise e := by
  obtain ⟨control, stack, registers, store, output⟩ := s
  cases control <;> simp [error?]

end State

end Wandika
