import Wandika.Proofs.Token.Pieces
import Wandika.Proofs.Tree.Relabel

/-!
# Texts one below the other

* `Position.after_down`, `located_down`: a text that stands further down has its pieces further
  down;
* `located_below`: the pieces of a text and of the one below it, if the first leaves no string open;
* `tokens_below`, `errors_below_eq`: the tokens and the errors that are read off from these pieces;
* `tokens_blankLines`: the tokens of a text below blank lines;
* `scan_below`: scanning is compositional at the ends of lines.
-/

namespace Wandika

/-! ### Places further down -/

namespace Position

variable (n m : Nat) (p : Position)

@[simp] theorem down_zero : p.down 0 = p := by
  simp [down]

@[simp] theorem down_down : (p.down n).down m = p.down (n + m) := by
  simp [down, Int.add_assoc]

theorem next_down (c : Char) : (p.down n).next c = (p.next c).down n := by
  unfold next down
  split_ifs
  · simp only [Position.mk.injEq, and_true]
    ring
  · rfl

theorem after_down (cs : List Char) : (p.down n).after cs = (p.after cs).down n := by
  induction cs generalizing p with
  | nil => rfl
  | cons c cs ih => rw [after_cons, next_down, ih, after_cons]

theorem line_after (cs : List Char) : (p.after cs).line = p.line + cs.count '\n' := by
  induction cs generalizing p with
  | nil => simp
  | cons c cs ih =>
    rw [after_cons, ih, next]
    split_ifs with hc
    · simp only [hc, List.count_cons_self, Nat.cast_add, Nat.cast_one]
      ring
    · rw [List.count_cons_of_ne hc]

/-- Where the line after a text begins. -/
theorem after_newline (cs : List Char) :
    ((({} : Position).after cs).next '\n') = ({} : Position).down (cs.count '\n' + 1) := by
  simp only [next, if_true, line_after, down, Position.mk.injEq, and_true]
  push_cast
  ring

end Position

@[simp] theorem Token.down_zero : Token.down 0 = id := by
  funext t
  simp [Token.down]

@[simp] theorem Token.down_down (n m : Nat) (t : Token) : (t.down n).down m = t.down (n + m) := by
  simp [Token.down]

/-! ### Pieces further down -/

theorem located_append (p : Position) (ps qs : List Piece) :
    located p (ps ++ qs) = located p ps ++ located (p.after (ps.flatMap Piece.text)) qs := by
  induction ps generalizing p with
  | nil => rfl
  | cons piece ps ih =>
    rw [List.cons_append, located, ih, located, List.flatMap_cons, Position.after_append]
    rfl

theorem located_down (n : Nat) (p : Position) (ps : List Piece) :
    located (p.down n) ps = (located p ps).map (Prod.map (Position.down n) id) := by
  induction ps generalizing p with
  | nil => rfl
  | cons piece ps ih =>
    rw [located, Position.after_down, ih, located, List.map_cons]
    rfl

/-- The pieces make up the text. -/
theorem text_pieces (source : List Char) : (pieces source).flatMap Piece.text = source := by
  induction hn : source.length using Nat.strong_induction_on generalizing source with
  | _ n ih =>
    cases source with
    | nil => rfl
    | cons c cs =>
      have hlt := munch_shorter c cs
      simp only [List.length_cons] at hn
      rw [pieces_cons, List.flatMap_cons, ih _ (by omega) _ rfl, munch_text]

/-! ### Tokens further down -/

/-- The tokens of pieces, given where each of them begins. -/
def tokensOf (ps : List (Position × Piece)) : List Token :=
  ps.filterMap fun (p, piece) => piece.token? p

theorem tokens_eq (source : List Char) :
    (scan source).tokens =
      tokensOf (located {} (pieces source)) ++ [Token.endMark (Position.after {} source)] := rfl

theorem tokensOf_down (n : Nat) (ps : List (Position × Piece)) :
    tokensOf (ps.map (Prod.map (Position.down n) id)) = (tokensOf ps).map (Token.down n) := by
  induction ps with
  | nil => rfl
  | cons a ps ih =>
    obtain ⟨p, piece⟩ := a
    cases piece <;> simp_all [tokensOf, Piece.token?, Token.down]

/-- The tokens without the end mark. -/
theorem dropLast_tokens (source : List Char) :
    (scan source).tokens.dropLast = tokensOf (located {} (pieces source)) := by
  rw [tokens_eq, List.dropLast_concat]

/-! ### Errors further down -/

/-- The error that many lines further down. -/
def ScanError.down (lines : Nat) (e : ScanError) : ScanError := { e with pos := e.pos.down lines }

/-- The errors of pieces, given where each of them begins. -/
def errorsOf (ps : List (Position × Piece)) : List ScanError :=
  ps.filterMap fun (p, piece) => piece.error? p

theorem errors_eq (source : List Char) :
    (scan source).errors = errorsOf (located {} (pieces source)) := rfl

theorem errorsOf_down (n : Nat) (ps : List (Position × Piece)) :
    errorsOf (ps.map (Prod.map (Position.down n) id)) = (errorsOf ps).map (ScanError.down n) := by
  induction ps with
  | nil => rfl
  | cons a ps ih =>
    obtain ⟨p, piece⟩ := a
    cases piece <;> simp_all [errorsOf, Piece.error?, ScanError.down]

theorem exists_mem_located {piece : Piece} {ps : List Piece} (h : piece ∈ ps) (p : Position) :
    ∃ q, (q, piece) ∈ located p ps := by
  induction ps generalizing p with
  | nil => cases h
  | cons first ps ih =>
    rcases List.mem_cons.1 h with rfl | h
    · exact ⟨p, List.mem_cons_self⟩
    · obtain ⟨q, hq⟩ := ih h (p.after first.text)
      exact ⟨q, List.mem_cons_of_mem _ hq⟩

/-! ### A text and the one below it -/

section Below

variable {a : List Char} (ha : ∀ e ∈ (scan a).errors, e.cause ≠ .unterminated) (b : List Char)

include ha

/-- Where no string is left open, every piece is complete at the end of the line. -/
theorem endsBefore_of_mem_pieces {piece : Piece} (h : piece ∈ pieces a) :
    piece.EndsBefore '\n' := by
  cases piece with
  | unterminated text =>
    obtain ⟨q, hq⟩ := exists_mem_located h {}
    have hmem : (⟨q, .unterminated⟩ : ScanError) ∈ (scan a).errors :=
      List.mem_filterMap.2 ⟨_, hq, rfl⟩
    exact absurd rfl (ha _ hmem)
  | comment text => exact rfl
  | token | blank | unexpected => trivial

/-- The pieces of both texts, those of the second one further down, with a line feed between
them. -/
theorem located_below :
    located {} (pieces (a ++ '\n' :: b)) =
      located {} (pieces a) ++ (Position.after {} a, .blank '\n') ::
        (located {} (pieces b)).map (Prod.map (Position.down (a.count '\n' + 1)) id) := by
  have hpieces : pieces (a ++ '\n' :: b) = pieces a ++ .blank '\n' :: pieces b :=
    pieces_append (by decide) b fun _ => endsBefore_of_mem_pieces ha
  rw [hpieces, located_append, text_pieces, located, ← located_down, ← Position.after_newline]
  rfl

/-- The tokens of a text and of the one below it: the end mark of the first is dropped, and the
others go down by one line more than the first has line feeds. -/
theorem tokens_below :
    (scan (a ++ '\n' :: b)).tokens =
      (scan a).tokens.dropLast ++ (scan b).tokens.map (Token.down (a.count '\n' + 1)) := by
  have hend : Position.after {} (a ++ '\n' :: b) =
      (Position.after {} b).down (a.count '\n' + 1) := by
    rw [Position.after_append, Position.after_cons, Position.after_newline, Position.after_down]
  rw [tokens_eq, dropLast_tokens, tokens_eq b, hend, located_below ha, List.map_append,
    ← tokensOf_down, ← List.append_assoc]
  simp [tokensOf, Piece.token?, Token.endMark, Token.down]

theorem errors_below_eq :
    (scan (a ++ '\n' :: b)).errors =
      (scan a).errors ++ (scan b).errors.map (ScanError.down (a.count '\n' + 1)) := by
  rw [errors_eq, located_below ha, errors_eq b, ← errorsOf_down]
  exact List.filterMap_append

end Below

/-- A text below another has no errors if both have none. -/
theorem errors_below {a b : List Char} (ha : (scan a).errors = []) (hb : (scan b).errors = []) :
    (scan (a ++ '\n' :: b)).errors = [] := by
  rw [errors_below_eq (by simp [ha]) b, ha, hb]
  rfl

/-- The tokens of a text below blank lines. -/
theorem tokens_blankLines (n : Nat) (b : List Char) :
    (scan (List.replicate n '\n' ++ b)).tokens = (scan b).tokens.map (Token.down n) := by
  induction n with
  | zero => simp
  | succ n ih =>
    have hbelow := tokens_below (a := []) (fun _ he => nomatch he) (List.replicate n '\n' ++ b)
    rw [ih] at hbelow
    rw [List.replicate_succ, List.cons_append]
    refine hbelow.trans ?_
    simp [dropLast_tokens, tokensOf, located]

theorem errors_blankLines (n : Nat) {b : List Char} (hb : (scan b).errors = []) :
    (scan (List.replicate n '\n' ++ b)).errors = [] := by
  induction n with
  | zero => exact hb
  | succ n ih => exact errors_below (a := []) rfl ih

/-- Scanning is compositional at the ends of lines. If a text leaves no string open, then the text
and another one below it have the tokens of the first one, without its end mark, and those of the
other one, which go down by one line more than the first has line feeds and keep their columns,
lexemes and literals. The errors are put together in the same way. -/
theorem scan_below {a : List Char} (ha : ∀ e ∈ (scan a).errors, e.cause ≠ .unterminated)
    (b : List Char) :
    (∃ ts, (scan a).tokens = ts ++ [Token.endMark (Position.after {} a)] ∧
      (scan (a ++ '\n' :: b)).tokens =
        ts ++ (scan b).tokens.map (Token.down (1 + a.count '\n'))) ∧
      (scan (a ++ '\n' :: b)).errors =
        (scan a).errors ++ (scan b).errors.map (ScanError.down (1 + a.count '\n')) := by
  rw [Nat.add_comm 1]
  refine ⟨⟨_, tokens_eq a, ?_⟩, errors_below_eq ha b⟩
  rw [tokens_below ha b, dropLast_tokens]

/-- The line feed keeps the two operators apart, and the point away from the digits. -/
theorem scan_below_split_operator :
    (∀ e ∈ (scan "@ x <\n1.".toList).errors, e.cause ≠ .unterminated) ∧
      (scan ("@ x <\n1.".toList ++ '\n' :: "= 5 \"u\nv".toList)).tokens.map (·.kind) =
        [.identifier, .less, .number, .dot, .equal, .number, .eof] ∧
      (scan ("@ x <\n1.".toList ++ '\n' :: "= 5 \"u\nv".toList)).errors =
        [⟨⟨1, 1⟩, .unexpected '@'⟩, ⟨⟨3, 5⟩, .unterminated⟩] := by
  have hclosed : ∀ e ∈ (scan "@ x <\n1.".toList).errors, e.cause ≠ .unterminated := by decide
  obtain ⟨⟨ts, hts, htokens⟩, herrors⟩ := scan_below hclosed "= 5 \"u\nv".toList
  refine ⟨hclosed, ?_, herrors.trans (by decide)⟩
  obtain rfl : (scan "@ x <\n1.".toList).tokens.dropLast = ts := by
    rw [hts, List.dropLast_concat]
  rw [htokens]
  decide

end Wandika
