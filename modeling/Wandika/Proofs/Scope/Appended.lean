import Wandika.Proofs.Parser.Numbering
import Wandika.Proofs.Scope.Relabelled

/-!
# Programs one after the other

The tokens of a text may follow those of another one in place of its end mark. The parser and the
analysis of scopes then do with both what they do with each of them, and the numbers of the second
program go on where those of the first one end.

* `Program.FromText.rest_eq`: the parser reads a text up to its end mark;
* `Program.FromText.first_ne_else`: a text that is parsed does not begin with an else, the only
  token with which another text could go on with the last statement of the first;
* `Program.parse_append`: the program of two texts, the tokens of the second one changed or not;
* `Relabel.shift`: a change of the numbers alone;
* `static_passes_append`: parser and analysis are compositional.
-/

namespace Wandika

open Grammar Grammar.Form

theorem Program.parse_of_program {c c₁ : Cursor} {p : Program} (h : Parser.program c = .ok p c₁) :
    (Program.parse c).1 = .ok p := by
  simp only [Program.parse, h]

namespace Program.FromText

variable {source : List Char} {p : Program} {c₁ : Cursor}

theorem of_parse (h : (Program.parse { rest := (scan source).tokens }).1 = .ok p) :
    ∃ c₁, p.FromText source (.ofSource source) c₁ :=
  ⟨_, List.suffix_rfl, Prod.ext h rfl⟩

/-- The parser has read the text up to its end mark. -/
theorem rest_eq (h : p.FromText source (.ofSource source) c₁) :
    c₁.rest = [Token.endMark (Position.after {} source)] := by
  obtain ⟨hreads, -, hend, -⟩ := h.ensures
  obtain ⟨ts, hts, -, hsigns⟩ := hreads.tokens
  obtain ⟨body, hbody, -⟩ := tokens_scan source
  have hyield := hreads.signs_ofSource hend
  rw [← hsigns, hbody, List.dropLast_concat] at hyield
  have hlength : ts.length = body.length := by simpa using congrArg List.length hyield
  have hts : body ++ [Token.endMark (Position.after {} source)] = ts ++ c₁.rest :=
    hbody.symm.trans hts
  exact (List.append_inj hts hlength.symm).2.symm

/-- No program begins with an else. -/
theorem first_ne_else (h : p.FromText source (.ofSource source) c₁) :
    ∀ t ∈ (scan source).tokens.head?, t.kind ≠ .elseWord := by
  obtain ⟨hyield, hshaped, -⟩ := tree_of_parse h.parsed
  have hderives := derives_of_parse hyield hshaped
  rw [derives_rule] at hderives
  obtain ⟨v, w, hv, hmany, hend⟩ := derives_seq.1 hderives
  obtain ⟨us, hus, rfl⟩ := derives_many.1 hmany
  obtain rfl := derives_tok.1 hend
  have havoids : Avoids [.elseWord] ((scan source).tokens.map Token.kind) := by
    rw [hv]
    exact avoids_declarations hus (by decide) (Avoids.of_head? rfl (by decide))
  intro t ht hk
  refine havoids .elseWord (by simp) ?_
  rw [List.head?_map, Option.mem_def.1 ht, Option.map_some, hk]

end Program.FromText

/-- The tokens of two texts, those of the second one changed, are parsed into the program of the
first one and the changed program of the second one. -/
theorem Program.parse_append {a b : List Char} {p q : Program} {c₁ d₁ : Cursor} {ρ : Relabel}
    (hp : p.FromText a (.ofSource a) c₁) (hq : q.FromText b (.ofSource b) d₁)
    (hoffset : ρ.offset = p.nodes) :
    (Program.parse { rest := (scan a).tokens.dropLast ++ (scan b).tokens.map ρ.token }).1 =
      .ok (p.append q ρ) := by
  obtain ⟨body, hbody, -⟩ := tokens_scan a
  have hd₁ : d₁.rest ≠ [] := by simp [hq.rest_eq]
  have hid : p.nodes = (Cursor.ofSource b).nextId + ρ.offset := by simp [Cursor.ofSource, hoffset]
  obtain ⟨c₂, hjoin⟩ := Parser.program_append hp.program_eq hbody hp.rest_eq hq.program_eq hd₁ hid
    hq.first_ne_else
  rw [hbody, List.dropLast_concat, Program.append, ← hoffset]
  exact Program.parse_of_program hjoin

/-- Adds to the numbers of nodes and leaves the tokens alone. -/
def Relabel.shift (offset : Nat) : Relabel :=
  { Relabel.refl with offset }

theorem Relabel.plain_shift (offset : Nat) : (Relabel.shift offset).Plain := fun _ => rfl

/-- Parser and analysis are compositional. Let two texts be parsed. Then the tokens of the first one
without its end mark, followed by those of the second one, are parsed into the statements of the
first program and those of the second one, whose numbers go up by as many nodes as the first has. If
both programs are analysed without an error, so is this one: its table is their tables one after the
other, and it has the warnings about the first one followed by those about the second one. -/
theorem static_passes_append {a b : List Char} {p q : Program}
    (hp : (Program.parse { rest := (scan a).tokens }).1 = .ok p)
    (hq : (Program.parse { rest := (scan b).tokens }).1 = .ok q) :
    ∃ r : Program,
      (Program.parse { rest := (scan a).tokens.dropLast ++ (scan b).tokens }).1 = .ok r ∧
      r.stmts = p.stmts ++ Stmt.relabelAll (.shift p.nodes) q.stmts ∧
      r.nodes = p.nodes + q.nodes ∧
      (p.resolve.error? = none → q.resolve.error? = none →
        r.resolve.error? = none ∧ r.resolve.locals = p.resolve.locals ++ q.resolve.locals ∧
        r.resolve.warnings = p.resolve.warnings ++ q.resolve.warnings) := by
  obtain ⟨c₁, hp⟩ := Program.FromText.of_parse hp
  obtain ⟨d₁, hq⟩ := Program.FromText.of_parse hq
  have hparse := Program.parse_append (ρ := .shift p.nodes) hp hq rfl
  refine ⟨p.append q (.shift p.nodes), ?_, rfl, Nat.add_comm _ _, fun hpr hqr => ?_⟩
  · rwa [show (Relabel.shift p.nodes).token = id from rfl, List.map_id] at hparse
  · obtain ⟨herror, hlocals, qs, hqs, hwarnings⟩ :=
      resolve_append (Relabel.plain_shift p.nodes) rfl hpr hp.inTable hqr hq.inTable
    refine ⟨herror, hlocals, ?_⟩
    -- the question marks stay where they are
    rw [hwarnings, hqs]
    simp [Relabel.shift, Relabel.refl]

/-- The first text ends with a branch that an else could follow, and the second one begins with a
parenthesis, as a call goes on. -/
theorem static_passes_append_after_branch :
    ∃ (a b : List Char) (p q r : Program),
      a = "func f(x) \x7b return x ? x; \x7d if (y) y = 1;".toList ∧
      b = "(f)(y); \x7b var z = y; f(z) ? z; \x7d".toList ∧
      (Program.parse { rest := (scan a).tokens }).1 = .ok p ∧
      (Program.parse { rest := (scan b).tokens }).1 = .ok q ∧
      p.resolve.error? = none ∧ q.resolve.error? = none ∧
      (Program.parse { rest := (scan a).tokens.dropLast ++ (scan b).tokens }).1 = .ok r ∧
      r.stmts = p.stmts ++ Stmt.relabelAll (.shift 4) q.stmts ∧
      r.resolve.locals = #[0, 0, -1, -1, -1, -1, -1, -1, 0, 0] ∧ r.resolve.warnings.length = 2 := by
  have ha : (match (Program.parse { rest := (scan
        "func f(x) \x7b return x ? x; \x7d if (y) y = 1;".toList).tokens }).1 with
      | .ok p => p.resolve.error?.isNone && decide (p.nodes = 4 ∧
          p.resolve.locals = #[0, 0, -1, -1] ∧ p.resolve.warnings.length = 1)
      | .error _ => false) = true := by decide +kernel
  have hb : (match (Program.parse { rest := (scan
        "(f)(y); \x7b var z = y; f(z) ? z; \x7d".toList).tokens }).1 with
      | .ok q => q.resolve.error?.isNone && decide (
          q.resolve.locals = #[-1, -1, -1, -1, 0, 0] ∧ q.resolve.warnings.length = 1)
      | .error _ => false) = true := by decide +kernel
  split at ha
  · rename_i p hp
    split at hb
    · rename_i q hq
      simp only [Bool.and_eq_true, Option.isNone_iff_eq_none, decide_eq_true_eq] at ha hb
      obtain ⟨hperror, hnodes, hplocals, hpwarnings⟩ := ha
      obtain ⟨hqerror, hqlocals, hqwarnings⟩ := hb
      obtain ⟨r, hr, hstmts, -, hresolve⟩ := static_passes_append hp hq
      obtain ⟨-, hlocals, hwarnings⟩ := hresolve hperror hqerror
      rw [hnodes] at hstmts
      refine ⟨_, _, p, q, r, rfl, rfl, hp, hq, hperror, hqerror, hr, hstmts, ?_, ?_⟩
      · rw [hlocals, hplocals, hqlocals]
        rfl
      · rw [hwarnings, List.length_append, hpwarnings, hqwarnings]
    · cases hb
  · cases ha

end Wandika
