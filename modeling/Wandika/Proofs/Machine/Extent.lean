import Wandika.Proofs.Machine.Lockstep
import Wandika.Proofs.Machine.Surroundings

/-!
# The extent of a piece of code

An expression or a statement is run from the state in which it is the work at hand to the first
state in which its outcome stands above what waited before. Up to there the machine never looks at
what waits below, so the same steps are made when nothing waits.

* `State.onto`, `State.alone`: a state with more that waits below, and with nothing that waits;
* `State.step_onto`: what waits below is neither read nor changed by a step of the work above it;
* `State.Finishes`: the extent of the work at hand;
* `State.finishes_iff`: its extent is the run of the work alone;
* `State.exists_finishes`: a run that halts finishes the work at hand on its way;
* `State.Finishes.inner`: so does the extent of the work that it belongs to.
-/

namespace Wandika

/-- Whether the control is the outcome of an expression or a statement. -/
def Control.isOutcome : Control → Bool
  | .eval _ | .exec _ => false
  | .value _ | .done _ | .raise _ => true

namespace State

/-- The state with more that waits below. -/
def onto (s : State) (ks : List Pending) : State :=
  { s with stack := s.stack ++ ks }

/-- The state with the work at hand only. -/
def alone (s : State) : State :=
  { s with stack := [] }

variable {mode : Mode} {s t : State} {ks : List Pending} {n fuel : Nat}

theorem onto_alone (s : State) : s.alone.onto s.stack = s := rfl

theorem halted_iff : s.halted = true ↔ s.control.isOutcome = true ∧ s.stack = [] := by
  obtain ⟨control, stack, registers, store, output⟩ := s
  cases control <;> cases stack <;> simp [halted, Control.isOutcome]

/-- The work above is finished exactly if its outcome stands on what waits below. -/
theorem halted_iff_onto (ks : List Pending) :
    s.halted = true ↔ (s.onto ks).control.isOutcome = true ∧ (s.onto ks).stack = ks := by
  rw [halted_iff, onto, List.append_left_eq_self]

theorem halted_of_onto (h : (s.onto ks).halted = true) : s.halted = true := by
  obtain ⟨houtcome, hstack⟩ := halted_iff.1 h
  exact halted_iff.2 ⟨houtcome, (List.append_eq_nil_iff.1 hstack).1⟩

/-- Until the work above is finished, a step neither reads nor changes what waits below. -/
theorem step_onto (h : s.halted = false) (ks : List Pending) :
    (s.onto ks).step mode = (s.step mode).onto ks := by
  have hdepth : mode.maxDepth = mode.maxDepth := rfl
  calc (s.onto ks).step mode
      = (s.step mode).within ks ((s.written? mode).toList ++ s.output) :=
        step_within s ks s.output hdepth h
    _ = (s.step mode).onto ks := by rw [← output_step]; rfl

theorem iterate_onto (h : ∀ m < n, ((step mode)^[m] s).halted = false) (ks : List Pending) :
    (step mode)^[n] (s.onto ks) = ((step mode)^[n] s).onto ks := by
  induction n with
  | zero => rfl
  | succ n ih =>
    rw [Function.iterate_succ_apply', Function.iterate_succ_apply',
      ih fun m hm => h m (Nat.lt_succ_of_lt hm), step_onto (h n (Nat.lt_succ_self n))]

/-! ### Runs -/

/-- A run is as many steps as there is fuel, a halted state being kept. -/
theorem run_eq_ite :
    run mode fuel s =
      if ((step mode)^[fuel] s).halted then some ((step mode)^[fuel] s) else none := by
  rw [← Nat.add_zero fuel, run_add, run, Nat.add_zero]

/-- The run from a state halts in another one. -/
theorem run_eq_some_iff :
    run mode fuel s = some t ↔ (step mode)^[fuel] s = t ∧ t.halted = true := by
  rw [run_eq_ite]
  constructor
  · intro h
    split_ifs at h with hs
    cases h
    exact ⟨rfl, hs⟩
  · rintro ⟨rfl, hs⟩
    rw [if_pos hs]

theorem iterate_of_halted (h : s.halted = true) (n : Nat) : (step mode)^[n] s = s :=
  Function.iterate_fixed (step_of_halted h) n

/-- A run that halts can do without its first step. -/
theorem run_step {final : State} (h : run mode fuel s = some final) :
    run mode fuel (s.step mode) = some final := by
  obtain ⟨hfinal, hhalted⟩ := run_eq_some_iff.1 h
  refine run_eq_some_iff.2 ⟨?_, hhalted⟩
  rw [← Function.iterate_succ_apply, Function.iterate_succ_apply', hfinal, step_of_halted hhalted]

/-! ### Extents -/

/-- The work at hand is finished after `n` steps: for the first time an outcome stands above what
waited at the beginning. -/
structure Finishes (mode : Mode) (s : State) (n : Nat) (t : State) : Prop where
  reaches : (step mode)^[n] s = t
  outcome : t.control.isOutcome = true
  stack : t.stack = s.stack
  first : ∀ m < n, ((step mode)^[m] s).control.isOutcome = true →
    ((step mode)^[m] s).stack ≠ s.stack

/-- The extent of the work at hand is a run of the work alone. -/
theorem finishes_iff :
    s.Finishes mode n t ↔
      (∀ m < n, ((step mode)^[m] s.alone).halted = false) ∧
        ((step mode)^[n] s.alone).halted = true ∧ t = ((step mode)^[n] s.alone).onto s.stack := by
  have hsame : ∀ {m}, (∀ j < m, ((step mode)^[j] s.alone).halted = false) →
      (step mode)^[m] s = ((step mode)^[m] s.alone).onto s.stack :=
    fun hgoes => iterate_onto hgoes s.stack
  constructor
  · intro h
    -- before the end the work alone has not halted: its outcome would stand on what waits
    have hgoes : ∀ m < n, ((step mode)^[m] s.alone).halted = false := by
      intro m
      induction m using Nat.strong_induction_on with
      | _ m ih =>
        intro hm
        rw [Bool.eq_false_iff]
        intro hhalted
        obtain ⟨houtcome, hstack⟩ := (halted_iff_onto s.stack).1 hhalted
        rw [← hsame fun j hj => ih j hj (hj.trans hm)] at houtcome hstack
        exact h.first m hm houtcome hstack
    have ht := h.reaches.symm.trans (hsame hgoes)
    refine ⟨hgoes, (halted_iff_onto s.stack).2 ?_, ht⟩
    rw [← ht]
    exact ⟨h.outcome, h.stack⟩
  · rintro ⟨hgoes, hhalted, rfl⟩
    obtain ⟨houtcome, hstack⟩ := (halted_iff_onto s.stack).1 hhalted
    refine ⟨hsame hgoes, houtcome, hstack, ?_⟩
    intro m hm hm' hstack'
    rw [hsame fun j hj => hgoes j (hj.trans hm)] at hm' hstack'
    have hhalted' := (halted_iff_onto s.stack).2 ⟨hm', hstack'⟩
    rw [hgoes m hm] at hhalted'
    cases hhalted'

/-- The work at hand is finished no later than an outcome stands above what waited. -/
theorem exists_finishes_of_outcome (houtcome : ((step mode)^[n] s).control.isOutcome = true)
    (hstack : ((step mode)^[n] s).stack = s.stack) :
    ∃ m ≤ n, s.Finishes mode m ((step mode)^[m] s) := by
  classical
  have hex : ∃ m, ((step mode)^[m] s).control.isOutcome = true ∧
      ((step mode)^[m] s).stack = s.stack := ⟨n, houtcome, hstack⟩
  obtain ⟨houtcome', hstack'⟩ := Nat.find_spec hex
  refine ⟨Nat.find hex, Nat.find_min' hex ⟨houtcome, hstack⟩, rfl, houtcome', hstack', ?_⟩
  exact fun m hm hout hst => Nat.find_min hex hm ⟨hout, hst⟩

/-- A run that halts finishes the work at hand on its way. -/
theorem exists_finishes {final : State} (h : run mode fuel s = some final) :
    ∃ n t, n ≤ fuel ∧ s.Finishes mode n t ∧ run mode (fuel - n) t = some final := by
  obtain ⟨hfinal, hhalted⟩ := run_eq_some_iff.1 h
  have hex : ∃ n, n ≤ fuel ∧ ((step mode)^[n] s.alone).halted = true := by
    by_contra hno
    push Not at hno
    have hgoes : ∀ m < fuel, ((step mode)^[m] s.alone).halted = false := fun m hm => by
      simpa using hno m hm.le
    have hsame := iterate_onto hgoes s.stack
    rw [onto_alone, hfinal] at hsame
    rw [hsame] at hhalted
    exact hno fuel le_rfl (halted_of_onto hhalted)
  classical
  obtain ⟨hle, hn⟩ := Nat.find_spec hex
  have hgoes : ∀ m < Nat.find hex, ((step mode)^[m] s.alone).halted = false := by
    intro m hm
    have := Nat.find_min hex hm
    simpa [hm.le.trans hle] using this
  refine ⟨Nat.find hex, _, hle, finishes_iff.2 ⟨hgoes, hn, rfl⟩, ?_⟩
  rw [← iterate_onto hgoes, onto_alone, ← run_add, Nat.add_sub_cancel' hle]
  exact h

/-- No outcome stands above what waited before the work at hand is finished. -/
theorem Finishes.le {m : Nat} (h : s.Finishes mode n t)
    (houtcome : ((step mode)^[m] s).control.isOutcome = true)
    (hstack : ((step mode)^[m] s).stack = s.stack) : n ≤ m := by
  by_contra hlt
  exact h.first m (Nat.not_le.1 hlt) houtcome hstack

/-- If the next step gives an outcome above what waited, it is the last of the extent. -/
theorem Finishes.eq_step {m : Nat} {u : State} (h : s.Finishes mode n t) (hm : m < n)
    (hu : (step mode)^[m] s = u) (houtcome : (u.step mode).control.isOutcome = true)
    (hstack : (u.step mode).stack = s.stack) : t = u.step mode := by
  subst hu
  rw [← Function.iterate_succ_apply' (step mode)] at houtcome hstack ⊢
  rw [← h.reaches, Nat.le_antisymm (h.le houtcome hstack) hm]

/-- Work that is begun within the extent, with something that waits for it, is finished there. -/
theorem Finishes.inner {m : Nat} {k : Pending} (h : s.Finishes mode n t) (hm : m ≤ n)
    (hstack : ((step mode)^[m] s).stack = k :: s.stack) :
    ∃ j u, ((step mode)^[m] s).Finishes mode j u ∧ m + j < n := by
  obtain ⟨hgoes, hhalted, -⟩ := finishes_iff.1 h
  have honto : (step mode)^[m] s = ((step mode)^[m] s.alone).onto s.stack :=
    iterate_onto (fun i hi => hgoes i (hi.trans_le hm)) s.stack
  have hwaits : ((step mode)^[m] s.alone).stack = [k] := by
    rw [honto] at hstack
    have happend : ((step mode)^[m] s.alone).stack ++ s.stack = [k] ++ s.stack := hstack
    exact List.append_cancel_right happend
  have hrest : (step mode)^[n - m] ((step mode)^[m] s.alone) = (step mode)^[n] s.alone := by
    rw [← Function.iterate_add_apply, Nat.sub_add_cancel hm]
  obtain ⟨j, u, hj, hfinishes, -⟩ := exists_finishes (run_eq_some_iff.2 ⟨hrest, hhalted⟩)
  refine ⟨j, (step mode)^[j] ((step mode)^[m] s), ?_, ?_⟩
  · obtain ⟨hgoes', hhalted', -⟩ := finishes_iff.1 hfinishes
    rw [honto]
    exact finishes_iff.2 ⟨hgoes', hhalted', iterate_onto hgoes' _⟩
  · -- at the end of the whole extent nothing waits any more
    refine Nat.lt_of_le_of_ne (by omega) fun heq => ?_
    obtain rfl : j = n - m := by omega
    have hend := hfinishes.stack
    rw [← hfinishes.reaches, hrest, hwaits, (halted_iff.1 hhalted).2] at hend
    cases hend

end State

end Wandika
