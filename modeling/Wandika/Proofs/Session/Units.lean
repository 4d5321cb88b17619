import Wandika.Proofs.Machine.Passage
import Wandika.Proofs.Machine.Trail
import Wandika.Proofs.Scope.Appended

/-!
# Units one below the other

* `SourceUnit.inTable`, `SourceUnit.size_locals`: the numbers of the nodes of a unit are the indices
  of its table;
* `SourceUnit.join`: a text that has the tokens of two units, those of the second further down, is a
  unit;
* `SourceUnit.below`: a unit below blank lines;
* `SourceUnit.tokens_append`: the tokens of two units with a line feed between them.
-/

namespace Wandika

namespace SourceUnit

variable (u : SourceUnit)

theorem fromText : ∃ c₁, u.program.FromText u.source (.ofSource u.source) c₁ :=
  Program.FromText.of_parse u.parsed

theorem inTable : InTable u.program.nodes (Stmt.idsAll u.program.stmts) := by
  obtain ⟨c₁, h⟩ := u.fromText
  exact h.inTable

theorem size_locals : u.locals.size = u.program.nodes :=
  size_resolve u.resolved u.inTable

/-- No statement of a unit returns. -/
theorem returns_eq_false : ∀ s ∈ u.program.stmts, s.returns = false := by
  obtain ⟨r, hr, -⟩ := Program.ok_of_resolve u.resolved
  have hany := Stmt.anyReturns_of_ok u.program.stmts hr rfl
  rw [Stmt.anyReturns_eq, List.any_eq_false] at hany
  exact fun s hs => by simpa using hany s hs

/-- The analysis of a unit and of another one below it. -/
theorem resolve_append (a b : SourceUnit) (lines : Nat) :
    (a.program.append b.program (.down lines a.program.nodes)).resolve.error? = none ∧
      (a.program.append b.program (.down lines a.program.nodes)).resolve.locals =
        a.locals ++ b.locals ∧
      ∃ qs : List (Option Token), b.program.resolve.warnings = qs.map noElseAt ∧
        (a.program.append b.program (.down lines a.program.nodes)).resolve.warnings =
          a.program.resolve.warnings ++ qs.map (noElseAt ∘ Option.map (Token.down lines)) :=
  Wandika.resolve_append (Relabel.plain_down lines _) rfl a.resolved a.inTable b.resolved b.inTable

/-- Two units of which the second stands below the first in a text make that text a unit. -/
def join (a b : SourceUnit) (lines : Nat) (text : List Char)
    (scanned : (scan text).errors = [])
    (tokens : (scan text).tokens =
      (scan a.source).tokens.dropLast ++ (scan b.source).tokens.map (Token.down lines)) :
    SourceUnit where
  source := text
  program := a.program.append b.program (.down lines a.program.nodes)
  scanned := scanned
  parsed := by
    obtain ⟨c₁, ha⟩ := a.fromText
    obtain ⟨d₁, hb⟩ := b.fromText
    rw [tokens]
    exact Program.parse_append (ρ := .down lines a.program.nodes) ha hb rfl
  resolved := (resolve_append a b lines).1

/-- The unit of an empty text. -/
def empty : SourceUnit := ⟨[], ⟨[], 0⟩, rfl, rfl, rfl⟩

/-- A unit below blank lines. -/
def below (u : SourceUnit) (blank : Nat) : SourceUnit :=
  join empty u blank (List.replicate blank '\n' ++ u.source) (errors_blankLines blank u.scanned)
    (tokens_blankLines blank u.source)

/-- Blank lines do not change the table. -/
theorem locals_below (blank : Nat) : (u.below blank).locals = u.locals :=
  (resolve_append empty u blank).2.1.trans (Array.empty_append ..)

/-- Below another unit, a unit with blank lines before it is moved down by fewer lines. -/
theorem tokens_append (a b : SourceUnit) {blank : Nat} (h : blank ≤ a.source.count '\n' + 1) :
    (scan (a.source ++ '\n' :: b.source)).tokens =
      (scan a.source).tokens.dropLast ++ (scan (b.below blank).source).tokens.map
        (Token.down (a.source.count '\n' + 1 - blank)) := by
  have hbelow : (scan (b.below blank).source).tokens =
      (scan b.source).tokens.map (Token.down blank) :=
    tokens_blankLines blank b.source
  rw [tokens_below (by simp [a.scanned]), hbelow, List.map_map]
  congr 2
  funext t
  rw [Function.comp_apply, Token.down_down, Nat.add_sub_cancel' h]

end SourceUnit

end Wandika
