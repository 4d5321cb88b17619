import Mathlib.Data.List.Infix
import Wandika.Proofs.Parser.Composition

/-!
# A parser only goes on

However a rule ends, the tokens that are left are the last of those that were left before, and the
next free node number has not become smaller. So the parser can be run again where it stopped.

* `Cursor.Onward`: one cursor stands at or behind another;
* `Parser.Deepens.onward`: an action that is composed of single ones leaves a cursor further on,
  also when it fails;
* `Program.onward_parse`: so does a run of the parser.
-/

namespace Wandika

/-- The second cursor stands at or behind the first: tokens were taken from the front, and node
numbers were handed out. -/
structure Cursor.Onward (c c' : Cursor) : Prop where
  rest : c'.rest <:+ c.rest
  nextId : c.nextId ≤ c'.nextId

namespace Cursor.Onward

variable {c c₁ c₂ : Cursor}

theorem refl (c : Cursor) : c.Onward c := ⟨List.suffix_rfl, Nat.le_refl _⟩

theorem trans (h : c.Onward c₁) (h' : c₁.Onward c₂) : c.Onward c₂ :=
  ⟨h'.rest.trans h.rest, h.nextId.trans h'.nextId⟩

end Cursor.Onward

theorem Cursor.onward_advance (c : Cursor) : c.Onward c.advance := by
  unfold Cursor.advance
  by_cases hend : c.atEnd = true
  · rw [if_pos hend]
    exact .refl c
  · rw [if_neg hend]
    exact ⟨List.tail_suffix c.rest, Nat.le_refl _⟩

namespace Parser

variable {α : Type} {act act' : Parser α}

theorem Single.onward (h : Single act) (c : Cursor) : c.Onward (outcome act c).2 := by
  rcases h.cursor_cases c with hc | hc | hc <;> rw [hc]
  · exact .refl c
  · exact c.onward_advance
  · exact ⟨List.suffix_rfl, Nat.le_succ _⟩

theorem Deepens.onward (h : Deepens act act') (c : Cursor) : c.Onward (outcome act c).2 := by
  induction h generalizing c with
  | single h => exact h.onward c
  | exhausted => exact .refl c
  | @bind _ _ act _ next _ _ _ ih ihn =>
    rw [outcome_bind]
    have hact := ih c
    generalize outcome act c = o at hact
    obtain ⟨r, c₁⟩ := o
    cases r with
    | ok b => exact hact.trans (ihn b c₁)
    | error e => exact hact

end Parser

/-- A run of the parser leaves a cursor further on, whether it succeeds or not. -/
theorem Program.onward_parse (c : Cursor) : c.Onward (Program.parse c).2 := by
  rw [Program.parse_eq]
  exact (Parser.Deepens.statements (Nat.le_refl _)).onward c

end Wandika
