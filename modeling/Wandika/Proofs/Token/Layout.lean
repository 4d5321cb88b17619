import Wandika.Proofs.Token.Lines
import Wandika.Proofs.Token.Partition

/-!
# Layout

Blanks and comments only keep tokens apart. The tokens of a text can be written down again with any
other layout between them, and are the same when they are scanned.

* `Layout`: blanks and whole comments;
* `Gap`: layout that begins with a blank, which may stand between any two tokens;
* `spread`: tokens written down with gaps between them;
* `Shows`: a text has the given tokens, wherever they stand, and no error;
* `Shows.after_layout`, `Shows.lexeme`, `Shows.cons`: layout shows nothing, and a lexeme shows its
  token at the end of a text and before a gap;
* `scan_spread`: writing tokens down and scanning them is the identity.
-/

namespace Wandika

/-- Blanks, and comments with the line feed that ends them. -/
inductive Layout : List Char → Prop
  | nil : Layout []
  | blank {c : Char} {cs : List Char} (separator : isSeparator c = true) (rest : Layout cs) :
      Layout (c :: cs)
  | comment {body cs : List Char} (line : '\n' ∉ body) (rest : Layout cs) :
      Layout ('/' :: '/' :: (body ++ '\n' :: cs))

/-- What may stand between two tokens: a blank, and then any layout. -/
structure Gap where
  blank : Char
  rest : List Char
  separator : isSeparator blank = true
  layout : Layout rest

/-- The text of a gap. -/
def Gap.text (gap : Gap) : List Char := gap.blank :: gap.rest

/-- The lexemes of the tokens, with a gap after each of them as long as there are gaps. -/
def spread : List Token → List Gap → List Char
  | t :: ts, gap :: gaps => t.lexeme.toList ++ (gap.text ++ spread ts gaps)
  | ts, _ => ts.flatMap fun t => t.lexeme.toList

/-! ### What a text shows -/

/-- The text has the tokens, wherever they stand, and no error. -/
structure Shows (cs : List Char) (ts : List Token) : Prop where
  tokens : (pieces cs).filterMap (Piece.token? {}) = ts.map Token.bare
  errors : ∀ piece ∈ pieces cs, ∀ p, piece.error? p = none

theorem bare_tokensOf_located (p : Position) (ps : List Piece) :
    (tokensOf (located p ps)).map Token.bare = ps.filterMap (Piece.token? {}) := by
  induction ps generalizing p with
  | nil => rfl
  | cons piece ps ih =>
    cases piece with
    | token k l text => exact congrArg (_ :: ·) (ih (p.after text))
    | blank | comment | unexpected | unterminated => exact ih _

theorem errorsOf_eq_nil {ps : List (Position × Piece)}
    (h : ∀ a ∈ ps, a.2.error? a.1 = none) : errorsOf ps = [] :=
  List.filterMap_eq_nil_iff.2 h

namespace Shows

variable {cs ds : List Char} {ts : List Token}

/-- What is scanned from a text that shows the tokens. -/
theorem scan (h : Shows cs ts) :
    (scan cs).errors = [] ∧
      ∃ us, (scan cs).tokens = us ++ [Token.endMark (Position.after {} cs)] ∧
        us.map Token.bare = ts.map Token.bare := by
  refine ⟨errorsOf_eq_nil fun a ha => ?_, _, tokens_eq cs, ?_⟩
  · exact h.errors a.2 (mem_of_mem_located ha) a.1
  · rw [bare_tokensOf_located, h.tokens]

theorem nil : Shows [] [] := ⟨rfl, fun _ h => nomatch h⟩

/-- A piece that is neither a token nor an error shows nothing. -/
theorem silent {piece : Piece} (hpieces : pieces cs = piece :: pieces ds)
    (htoken : piece.token? {} = none) (herror : ∀ p, piece.error? p = none) (h : Shows ds ts) :
    Shows cs ts := by
  constructor
  · rw [hpieces, List.filterMap_cons_none htoken, h.tokens]
  · rw [hpieces, List.forall_mem_cons]
    exact ⟨herror, h.errors⟩

theorem after_blank {c : Char} (hc : isSeparator c = true) (h : Shows cs ts) :
    Shows (c :: cs) ts := by
  have hpieces : pieces (c :: cs) = .blank c :: pieces cs := (Piece.Fits.blank hc).pieces_eq
  exact silent hpieces rfl (fun _ => rfl) h

/-- Layout shows nothing. -/
theorem after_layout (hlayout : Layout cs) (h : Shows ds ts) : Shows (cs ++ ds) ts := by
  induction hlayout with
  | nil => exact h
  | blank separator _ ih => exact ih.after_blank separator
  | @comment body cs line _ ih =>
    -- the comment stops at its line feed, which is a blank
    have hfits : (Piece.comment ('/' :: '/' :: body)).Fits ('\n' :: (cs ++ ds)) :=
      .comment line (.inr rfl)
    have hpieces : pieces ('/' :: '/' :: (body ++ '\n' :: cs) ++ ds) =
        .comment ('/' :: '/' :: body) :: pieces ('\n' :: (cs ++ ds)) := by
      rw [← hfits.pieces_eq]
      simp [Piece.text]
    exact silent hpieces rfl (fun _ => rfl) (ih.after_blank rfl)

end Shows

/-! ### Lexemes -/

section Lexemes

variable {k : Kind} {l : Option Literal} {text : List Char}

/-- A lexeme that stands alone is one piece. -/
theorem Lexeme.pieces_eq (h : Lexeme k l text) : pieces text = [.token k l text] := by
  obtain ⟨c, cs, rfl⟩ := List.exists_cons_of_ne_nil h.ne_nil
  rw [pieces_cons, h.munch]
  rfl

/-- A lexeme before a separator is one piece. -/
theorem Lexeme.pieces_append (h : Lexeme k l text) {x : Char} (hx : isSeparator x = true)
    (ds : List Char) : pieces (text ++ x :: ds) = .token k l text :: .blank x :: pieces ds := by
  have hends : ∀ piece ∈ pieces text, piece.EndsBefore x := by
    rw [h.pieces_eq]
    intro piece hpiece
    rw [List.mem_singleton.1 hpiece]
    trivial
  rw [Wandika.pieces_append hx ds hends, h.pieces_eq]
  rfl

end Lexemes

theorem token?_eq_bare (t : Token) :
    Piece.token? {} (.token t.kind t.literal t.lexeme.toList) = some t.bare := by
  simp [Piece.token?, Token.bare]

namespace Shows

variable {t : Token} (ht : Lexeme t.kind t.literal t.lexeme.toList)

include ht

/-- A lexeme at the end of a text shows its token. -/
theorem lexeme : Shows t.lexeme.toList [t] := by
  constructor
  · rw [ht.pieces_eq, List.filterMap_cons_some (token?_eq_bare t)]
    rfl
  · rw [ht.pieces_eq]
    intro piece hpiece p
    rw [List.mem_singleton.1 hpiece]
    rfl

/-- A lexeme before a gap shows its token. -/
theorem cons {ds : List Char} {ts : List Token} (gap : Gap) (h : Shows ds ts) :
    Shows (t.lexeme.toList ++ (gap.text ++ ds)) (t :: ts) := by
  have hrest : Shows (gap.rest ++ ds) ts := h.after_layout gap.layout
  have hpieces := ht.pieces_append gap.separator (gap.rest ++ ds)
  constructor
  · rw [Gap.text, List.cons_append, hpieces, List.filterMap_cons_some (token?_eq_bare t),
      List.filterMap_cons_none rfl, hrest.tokens, List.map_cons]
  · rw [Gap.text, List.cons_append, hpieces, List.forall_mem_cons, List.forall_mem_cons]
    exact ⟨fun _ => rfl, fun _ => rfl, hrest.errors⟩

omit ht

/-- Tokens that are written down with a gap between any two of them are shown. -/
theorem spread {ts : List Token} (hts : ∀ t ∈ ts, Lexeme t.kind t.literal t.lexeme.toList)
    {gaps : List Gap} (hlength : gaps.length = ts.length - 1) :
    Shows (spread ts gaps) ts := by
  induction ts generalizing gaps with
  | nil =>
    obtain rfl : gaps = [] := List.length_eq_zero_iff.1 hlength
    exact .nil
  | cons t ts ih =>
    rw [List.forall_mem_cons] at hts
    cases gaps with
    | nil =>
      obtain rfl : ts = [] := List.length_eq_zero_iff.1 hlength.symm
      simpa [Wandika.spread] using lexeme hts.1
    | cons gap gaps =>
      refine cons hts.1 gap (ih hts.2 ?_)
      simp only [List.length_cons, Nat.add_sub_cancel] at hlength
      omega

end Shows

theorem lexeme_of_mem_scan {source : List Char} {t : Token}
    (h : t ∈ (scan source).tokens.dropLast) : Lexeme t.kind t.literal t.lexeme.toList := by
  obtain ⟨body, hbody, hb⟩ := tokens_scan source
  rcases scanned_of_mem_scan (List.mem_of_mem_dropLast h) with heof | hlexeme
  · rw [hbody, List.dropLast_concat] at h
    exact absurd heof (hb t h).2
  · exact hlexeme

/-- Writing tokens down and scanning them is the identity. Take the tokens of a text without the end
mark, and write their lexemes down with any gap between two of them. The scan of what is written has
no error, and gives the same kinds, lexemes and literals in the same order, with an end mark after
them. -/
theorem scan_spread (source : List Char) (gaps : List Gap)
    (hlength : gaps.length = (scan source).tokens.dropLast.length - 1) :
    (scan (spread (scan source).tokens.dropLast gaps)).errors = [] ∧
      ∃ ts, (scan (spread (scan source).tokens.dropLast gaps)).tokens =
          ts ++ [Token.endMark (Position.after {} (spread (scan source).tokens.dropLast gaps))] ∧
        ts.map Token.bare = (scan source).tokens.dropLast.map Token.bare :=
  (Shows.spread (fun _ => lexeme_of_mem_scan) hlength).scan

/-- A string that holds slashes, and comments that hold an operator and a quote. -/
theorem scan_spread_comments :
    ∃ narrow wide : Gap, narrow.text = [' '] ∧ wide.text = "\t//=\"\n\r".toList ∧
      [wide, narrow, wide, narrow, wide].length =
        (scan "x<=//\n\"a//b\n\"1.5.k".toList).tokens.dropLast.length - 1 ∧
      spread (scan "x<=//\n\"a//b\n\"1.5.k".toList).tokens.dropLast
          [wide, narrow, wide, narrow, wide] =
        "x\t//=\"\n\r<= \"a//b\n\"\t//=\"\n\r1.5 .\t//=\"\n\rk".toList ∧
      (scan "x\t//=\"\n\r<= \"a//b\n\"\t//=\"\n\r1.5 .\t//=\"\n\rk".toList).errors = [] ∧
      (scan "x\t//=\"\n\r<= \"a//b\n\"\t//=\"\n\r1.5 .\t//=\"\n\rk".toList).tokens.dropLast.map
          Token.bare =
        (scan "x<=//\n\"a//b\n\"1.5.k".toList).tokens.dropLast.map Token.bare := by
  have hlayout : Layout "//=\"\n\r".toList :=
    @Layout.comment ['=', '"'] ['\r'] (by decide) (.blank rfl .nil)
  let narrow : Gap := ⟨' ', [], rfl, .nil⟩
  let wide : Gap := ⟨'\t', _, rfl, hlayout⟩
  have htext : spread (scan "x<=//\n\"a//b\n\"1.5.k".toList).tokens.dropLast
      [wide, narrow, wide, narrow, wide] =
        "x\t//=\"\n\r<= \"a//b\n\"\t//=\"\n\r1.5 .\t//=\"\n\rk".toList :=
    rfl
  obtain ⟨herrors, ts, htokens, hbare⟩ :=
    scan_spread "x<=//\n\"a//b\n\"1.5.k".toList [wide, narrow, wide, narrow, wide] rfl
  rw [htext] at herrors htokens
  refine ⟨narrow, wide, rfl, rfl, rfl, htext, herrors, ?_⟩
  rw [htokens, List.dropLast_concat, hbare]

end Wandika
