import Wandika.Proofs.Parser.DerivedStatements
import Wandika.Proofs.Parser.Statements

/-!
# What the parser accepts, and the tree it gives

* `parse_scan_cases`: a scanned text is parsed into a tree of the right shape that reads back as the
  text, or a token of it is rejected;
* `parse_ok_iff_derives`: the parser accepts the words of the grammar and nothing else;
* `parse_faithful`: the tree of an accepted text loses and adds nothing.
-/

namespace Wandika

open Grammar Grammar.Form

/-- The cursor of a fresh parser on a text. -/
def Cursor.ofSource (source : List Char) : Cursor := { rest := (scan source).tokens }

theorem Cursor.standard_ofSource (source : List Char) : (Cursor.ofSource source).Standard :=
  fun _ ht => standard_of_mem_scan ht

/-- What is read up to the end mark of a scanned text is all of it but the end mark. -/
theorem Cursor.Reads.signs_ofSource {source : List Char} {signs : List Sign} {ids : List Int}
    {c : Cursor} (h : (Cursor.ofSource source).Reads signs ids c) (he : c.atEnd = true) :
    signs = (scan source).tokens.dropLast.map Token.sign := by
  obtain ⟨ts, hts, hk, rfl⟩ := h.tokens
  obtain ⟨body, hbody, hb⟩ := tokens_scan source
  rw [Cursor.ofSource, hbody] at hts
  have hts : body ++ [Token.endMark (Position.after {} source)] = ts ++ c.rest := hts
  rw [hbody, List.dropLast_concat]
  suffices body = ts by rw [this]
  rcases List.append_eq_append_iff.1 hts with ⟨xs, rfl, hx⟩ | ⟨xs, rfl, hx⟩
  · -- nothing but the end mark could stand between `body` and the cursor
    cases xs with
    | nil => simp
    | cons x xs =>
      obtain ⟨rfl, -⟩ := List.cons.inj hx
      exact absurd rfl (hk (Token.endMark (Position.after {} source)) (by simp))
  · -- nothing of `body` can be left, since the next token is the end mark
    cases xs with
    | nil => simp
    | cons x xs =>
      simp only [Cursor.atEnd, Cursor.peek, hx, List.cons_append, List.headD_cons,
        decide_eq_true_eq] at he
      exact absurd he (hb x (by simp)).2

/-- The outcome of parsing, as what the parser of programs ensures. -/
theorem Parser.Ensures.parse_cases {c : Cursor} {post : Program → Cursor → Prop}
    {may : Failure → Prop} (h : Parser.Ensures Parser.program c post may) :
    (∃ p c', Program.parse c = (.ok p, c') ∧ post p c') ∨
      ∃ e c', Program.parse c = (.error e, c') ∧ may e := by
  unfold Parser.Ensures at h
  unfold Program.parse
  split at h
  · rename_i p c' e
    exact Or.inl ⟨p, c', by rw [e], h⟩
  · rename_i e c' e'
    exact Or.inr ⟨e, c', by rw [e'], h⟩

/-- A text is parsed into a tree of the right shape that reads back as the text, or a token of it
is rejected. -/
theorem parse_scan_cases (source : List Char) :
    (∃ p c, Program.parse (.ofSource source) = (.ok p, c) ∧
      p.yield = (scan source).tokens.dropLast.map Token.sign ∧ Stmt.ShapedAll p.stmts ∧
      Numbered 0 (Stmt.idsAll p.stmts)) ∨
    ∃ e c, Program.parse (.ofSource source) = (.error (.rejected e), c) := by
  have h := Parser.program_ensures _ (Cursor.standard_ofSource source)
  rcases h.parse_cases with ⟨p, c, hp, hr, hs, he, -⟩ | ⟨e, c, hp, hm⟩
  · exact Or.inl ⟨p, c, hp, hr.signs_ofSource he, hs, hr.numbered⟩
  · cases e with
    | rejected e => exact Or.inr ⟨e, c, hp⟩
    | malformed => exact hm.elim
    | exhausted => exact absurd trivial hm

/-- The tree of an accepted text. -/
theorem tree_of_parse {source : List Char} {p : Program} {c : Cursor}
    (h : Program.parse (.ofSource source) = (.ok p, c)) :
    p.yield = (scan source).tokens.dropLast.map Token.sign ∧ Stmt.ShapedAll p.stmts ∧
      Numbered 0 (Stmt.idsAll p.stmts) := by
  rcases parse_scan_cases source with ⟨p', c', hp, htree⟩ | ⟨e, c', hp⟩
  · obtain ⟨he, -⟩ := Prod.mk.inj (hp.symm.trans h)
    cases Except.ok.inj he
    exact htree
  · cases (Prod.mk.inj (hp.symm.trans h)).1

/-- The tree of an accepted text is a derivation of its kinds. -/
theorem derives_of_parse {source : List Char} {p : Program}
    (hy : p.yield = (scan source).tokens.dropLast.map Token.sign) (hs : Stmt.ShapedAll p.stmts) :
    Derives (rule .program) ((scan source).tokens.map Token.kind) := by
  obtain ⟨body, hbody, -⟩ := tokens_scan source
  obtain ⟨us, hus, e⟩ := derives_stmts hs
  have hk : body.map Token.kind = us.flatten := by
    rw [hbody, List.dropLast_concat] at hy
    rw [← e, show Stmt.yieldAll p.stmts = _ from hy]
    simp [Sign.kinds, Function.comp_def]
  rw [hbody, List.map_append, hk]
  exact .rule (.seq (derives_many.2 ⟨us, hus, rfl⟩) (.tok .eof))

/-- A fresh parser on the tokens of a text gives a program exactly if their kinds are derivable, and
rejects a token otherwise. -/
theorem parse_ok_iff_derives (source : List Char) :
    ((∃ p, (Program.parse { rest := (scan source).tokens }).1 = .ok p) ↔
      Derives (rule .program) ((scan source).tokens.map Token.kind)) ∧
    (¬ Derives (rule .program) ((scan source).tokens.map Token.kind) →
      ∃ e, (Program.parse { rest := (scan source).tokens }).1 = .error (.rejected e)) := by
  show ((∃ p, (Program.parse (.ofSource source)).1 = .ok p) ↔ _) ∧
    (_ → ∃ e, (Program.parse (.ofSource source)).1 = .error (.rejected e))
  rcases parse_scan_cases source with ⟨p, c, hp, hy, hs, -⟩ | ⟨e, c, hp⟩
  · have hd := derives_of_parse hy hs
    exact ⟨iff_of_true ⟨p, by rw [hp]⟩ hd, fun hn => absurd hd hn⟩
  · -- derivable tokens fail only otherwise, and this is a rejection
    have hd : ¬ Derives (rule .program) ((scan source).tokens.map Token.kind) := by
      intro hd
      rcases (Parser.program_derived (c := .ofSource source) hd).parse_cases with
        ⟨p, c', hp', -⟩ | ⟨e', c', hp', hm⟩
      · simp [hp] at hp'
      · obtain ⟨he, -⟩ := Prod.mk.inj (hp.symm.trans hp')
        cases Except.error.inj he
        exact hm
    refine ⟨iff_of_false ?_ hd, fun _ => ⟨e, by rw [hp]⟩⟩
    rintro ⟨p, hp'⟩
    simp [hp] at hp'

/-- The tree of an accepted text reads back as the text and has the shape of the grammar. Another
accepted text with the same tree shows the same tokens. -/
theorem parse_faithful {source : List Char} {p : Program} {c : Cursor}
    (h : Program.parse { rest := (scan source).tokens } = (.ok p, c)) :
    p.yield = (scan source).tokens.dropLast.map Token.sign ∧ Stmt.ShapedAll p.stmts ∧
      ∀ (source' : List Char) (p' : Program) (c' : Cursor),
        Program.parse { rest := (scan source').tokens } = (.ok p', c') →
        Stmt.bareAll p'.stmts = Stmt.bareAll p.stmts →
        (scan source').tokens.dropLast.map Token.sign =
          (scan source).tokens.dropLast.map Token.sign := by
  obtain ⟨hy, hs, -⟩ := tree_of_parse h
  refine ⟨hy, hs, fun source' p' c' h' hb => ?_⟩
  rw [← (tree_of_parse h').1, ← hy, Program.yield, Program.yield,
    ← Stmt.yieldAll_bareAll p'.stmts, hb, Stmt.yieldAll_bareAll]

theorem parse_faithful_nested_conditions :
    ∃ p c, Program.parse
        { rest := (scan "if (a) if (b) c = d; else e.f = g ? h : i;".toList).tokens } = (.ok p, c) ∧
      p.yield = (scan "if (a) if (b) c = d; else e.f = g ? h : i;".toList).tokens.dropLast.map
        Token.sign ∧ Stmt.ShapedAll p.stmts := by
  obtain ⟨p, c, h⟩ : ∃ p c, Program.parse
      { rest := (scan "if (a) if (b) c = d; else e.f = g ? h : i;".toList).tokens } = (.ok p, c) :=
    ⟨_, _, rfl⟩
  obtain ⟨hy, hs, -⟩ := parse_faithful h
  exact ⟨p, c, h, hy, hs⟩

end Wandika
