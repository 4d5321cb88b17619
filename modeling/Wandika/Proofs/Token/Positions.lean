import Mathlib.Data.List.DropRight
import Wandika.Proofs.Token.Lines
import Wandika.Proofs.Token.Partition

/-!
# Where tokens and errors stand

The scanner carries a place along the text. That place is compared with what the text before an
offset says about it: how many line feeds there are, and how many characters after the last one.

* `lineAt`, `columnAt`: line and column of an offset, read off from the text before it;
* `Position.after_take`: the place that is carried along is that of the offset;
* `Piece.BeginsAt`: a piece begins at an offset in the division of the text;
* `Token.StandsAt`, `ScanError.StandsAt`: a token or an error stands at an offset and says so;
* `scan_positions`: all of them do, in order.
-/

namespace Wandika

/-- The line of an offset: one more than there are line feeds before it. -/
def lineAt (source : List Char) (offset : Nat) : Int :=
  1 + (source.take offset).count '\n'

/-- The column of an offset: one more than there are characters between the last line feed before
it, or the beginning of the text, and it. -/
def columnAt (source : List Char) (offset : Nat) : Int :=
  1 + ((source.take offset).rtakeWhile (· != '\n')).length

/-! ### The place after a text -/

namespace Position

theorem column_after_concat (p : Position) (cs : List Char) (c : Char) :
    (p.after (cs ++ [c])).column = if c = '\n' then 1 else (p.after cs).column + 1 := by
  rw [after_append, after_cons, after_nil, next]
  split_ifs <;> rfl

theorem column_after (cs : List Char) :
    (({} : Position).after cs).column = 1 + (cs.rtakeWhile (· != '\n')).length := by
  induction cs using List.reverseRecOn with
  | nil => rfl
  | append_singleton cs c ih =>
    rw [column_after_concat, List.rtakeWhile_concat]
    by_cases hc : c = '\n'
    · simp [hc]
    · simp only [hc, if_false, bne_iff_ne, ne_eq, not_false_eq_true, if_true, ih,
        List.length_append, List.length_singleton]
      push_cast
      ring

/-- The place after the text before an offset. -/
theorem after_take (source : List Char) (offset : Nat) :
    ({} : Position).after (source.take offset) =
      ⟨lineAt source offset, columnAt source offset⟩ := by
  rw [lineAt, columnAt, ← column_after]
  have hline : _ = (1 : Int) + _ := line_after {} (source.take offset)
  rw [← hline]

end Position

/-! ### Pieces and their offsets -/

/-- The piece begins at the offset, when the text is divided into its pieces. -/
def Piece.BeginsAt (source : List Char) (piece : Piece) (offset : Nat) : Prop :=
  ∃ before after, pieces source = before ++ piece :: after ∧
    offset = (before.flatMap Piece.text).length

/-- A piece of a division fits in front of what follows it. -/
theorem Divides.fits {source : List Char} {before after : List Piece} {piece : Piece}
    (h : Divides source (before ++ piece :: after)) :
    ∃ rest, source = before.flatMap Piece.text ++ (piece.text ++ rest) ∧ piece.Fits rest := by
  induction before generalizing source with
  | nil =>
    cases h with
    | cons fits more => exact ⟨_, rfl, fits⟩
  | cons first before ih =>
    cases h with
    | cons fits more =>
      obtain ⟨rest, rfl, hpiece⟩ := ih more
      exact ⟨rest, by simp, hpiece⟩

theorem Piece.BeginsAt.fits {source : List Char} {piece : Piece} {offset : Nat}
    (h : piece.BeginsAt source offset) :
    ∃ rest, source.drop offset = piece.text ++ rest ∧ piece.Fits rest := by
  obtain ⟨before, after, hpieces, rfl⟩ := h
  have hdivides := divides_pieces source
  rw [hpieces] at hdivides
  obtain ⟨rest, hsource, hfits⟩ := hdivides.fits
  exact ⟨rest, by rw [hsource, List.drop_left], hfits⟩

/-- What the function reads off from each piece, given its place, with the offset of the piece. The
first of the pieces begins at `offset`. -/
def placed {α : Type} (source : List Char) (read : Position → Piece → Option α) :
    (offset : Nat) → List Piece → List (α × Nat)
  | _, [] => []
  | offset, piece :: rest =>
      ((read ⟨lineAt source offset, columnAt source offset⟩ piece).map (·, offset)).toList ++
        placed source read (offset + piece.text.length) rest

section Placed

variable {α : Type} {source : List Char} {read : Position → Piece → Option α}

/-- The places that are carried along are those of the offsets. -/
theorem map_fst_placed {offset : Nat} {ps : List Piece}
    (h : source.drop offset = ps.flatMap Piece.text) :
    (placed source read offset ps).map Prod.fst =
      (located (({} : Position).after (source.take offset)) ps).filterMap
        fun (p, piece) => read p piece := by
  induction ps generalizing offset with
  | nil => rfl
  | cons piece ps ih =>
    rw [List.flatMap_cons] at h
    have htake : source.take (offset + piece.text.length) = source.take offset ++ piece.text := by
      rw [List.take_add, h, List.take_left]
    have hdrop : source.drop (offset + piece.text.length) = ps.flatMap Piece.text := by
      rw [← List.drop_drop, h, List.drop_left]
    rw [placed, located, List.map_append, ih hdrop, htake, Position.after_append,
      Position.after_take, List.filterMap_cons]
    dsimp only
    cases read ⟨lineAt source offset, columnAt source offset⟩ piece <;> rfl

theorem beginsAt_of_mem_placed (before : List Piece) {ps : List Piece}
    (h : pieces source = before ++ ps) {a : α} {offset : Nat}
    (ha : (a, offset) ∈ placed source read (before.flatMap Piece.text).length ps) :
    ∃ piece, piece.BeginsAt source offset ∧
      read ⟨lineAt source offset, columnAt source offset⟩ piece = some a := by
  induction ps generalizing before with
  | nil => cases ha
  | cons piece ps ih =>
    rw [placed, List.mem_append] at ha
    rcases ha with ha | ha
    · simp only [Option.mem_toList, Option.map_eq_some_iff, Prod.mk.injEq] at ha
      obtain ⟨_, hread, rfl, rfl⟩ := ha
      exact ⟨piece, ⟨before, ps, h, rfl⟩, hread⟩
    · refine ih (before ++ [piece]) (by simp [h]) ?_
      simpa using ha

variable (source read) in
/-- The offsets increase, and lie from the first one on and before the end of the last piece. -/
theorem sorted_placed (offset : Nat) {ps : List Piece} (h : ∀ piece ∈ ps, piece.text ≠ []) :
    ((placed source read offset ps).map Prod.snd).Pairwise (· < ·) ∧
      ∀ o ∈ (placed source read offset ps).map Prod.snd,
        offset ≤ o ∧ o < offset + (ps.flatMap Piece.text).length := by
  induction ps generalizing offset with
  | nil => exact ⟨.nil, by simp [placed]⟩
  | cons piece ps ih =>
    obtain ⟨hsorted, hrange⟩ := ih (offset + piece.text.length)
      fun q hq => h q (List.mem_cons_of_mem _ hq)
    have hpos := List.length_pos_of_ne_nil (h piece List.mem_cons_self)
    rw [placed, List.map_append, List.flatMap_cons, List.length_append]
    cases read ⟨lineAt source offset, columnAt source offset⟩ piece with
    | none =>
      refine ⟨hsorted, fun o ho => ?_⟩
      have := hrange o ho
      omega
    | some a =>
      refine ⟨List.pairwise_cons.2 ⟨fun o ho => ?_, hsorted⟩, ?_⟩
      · have := hrange o ho
        dsimp only
        omega
      · refine List.forall_mem_cons.2 ⟨by dsimp only; omega, fun o ho => ?_⟩
        have := hrange o ho
        omega

end Placed

/-! ### Tokens and errors -/

/-- The token begins at the offset, and its place is that of the offset. The end mark begins at the
end of the text. -/
structure Token.StandsAt (source : List Char) (t : Token) (offset : Nat) : Prop where
  piece : (Piece.token t.kind t.literal t.lexeme.toList).BeginsAt source offset ∨
    t.kind = .eof ∧ offset = source.length
  lexeme : t.lexeme.toList <+: source.drop offset
  line : t.pos.line = lineAt source offset
  column : t.pos.column = columnAt source offset

/-- The error is about what begins at the offset, and its place is that of the offset: an unexpected
character, or a quote without another one after it. -/
structure ScanError.StandsAt (source : List Char) (e : ScanError) (offset : Nat) : Prop where
  piece : match e.cause with
    | .unexpected c => (Piece.unexpected c).BeginsAt source offset ∧ source[offset]? = some c
    | .unterminated => (Piece.unterminated (source.drop offset)).BeginsAt source offset ∧
        ∃ body, source.drop offset = '"' :: body ∧ '"' ∉ body
  line : e.pos.line = lineAt source offset
  column : e.pos.column = columnAt source offset

section Scan

variable {source : List Char} {piece : Piece} {offset : Nat}

theorem Piece.BeginsAt.standsAt_token {t : Token} (h : piece.BeginsAt source offset)
    (ht : piece.token? ⟨lineAt source offset, columnAt source offset⟩ = some t) :
    t.StandsAt source offset := by
  obtain ⟨rest, hdrop, -⟩ := h.fits
  cases piece with
  | token kind literal text =>
    cases ht
    refine ⟨Or.inl ?_, ?_, rfl, rfl⟩
    · simpa using h
    · rw [hdrop]
      simp [Piece.text]
  | _ => cases ht

theorem Piece.BeginsAt.standsAt_error {e : ScanError} (h : piece.BeginsAt source offset)
    (he : piece.error? ⟨lineAt source offset, columnAt source offset⟩ = some e) :
    e.StandsAt source offset := by
  obtain ⟨rest, hdrop, hfits⟩ := h.fits
  cases piece with
  | unexpected c =>
    cases he
    refine ⟨⟨h, ?_⟩, rfl, rfl⟩
    rw [← List.head?_drop, hdrop]
    rfl
  | unterminated text =>
    cases he
    cases hfits with
    | unterminated inside =>
      rw [List.append_nil] at hdrop
      refine ⟨⟨?_, _, hdrop, inside⟩, rfl, rfl⟩
      rw [hdrop]
      exact h
  | _ => cases he

theorem standsAt_endMark (source : List Char) :
    (Token.endMark (Position.after {} source)).StandsAt source source.length := by
  have hplace := Position.after_take source source.length
  rw [List.take_length] at hplace
  rw [hplace]
  exact ⟨Or.inr ⟨rfl, rfl⟩, List.nil_prefix, rfl, rfl⟩

end Scan

/-- Every token and every error of a text begins at some offset, and its line and its column are
those of the offset: one more than there are line feeds before the offset, and one more than there
are characters since the last of them. The offsets of the tokens increase up to the end mark, which
stands at the end of the text, and so do those of the errors. -/
theorem scan_positions (source : List Char) :
    (∃ starts : List (Token × Nat), starts.map Prod.fst = (scan source).tokens ∧
      (starts.map Prod.snd).Pairwise (· < ·) ∧
      starts.getLast?.map Prod.snd = some source.length ∧
      ∀ t p, (t, p) ∈ starts → t.StandsAt source p) ∧
    ∃ faults : List (ScanError × Nat), faults.map Prod.fst = (scan source).errors ∧
      (faults.map Prod.snd).Pairwise (· < ·) ∧
      ∀ e p, (e, p) ∈ faults → e.StandsAt source p := by
  have hdrop : source.drop 0 = (pieces source).flatMap Piece.text := (text_pieces source).symm
  have hne : ∀ piece ∈ pieces source, piece.text ≠ [] := fun _ => text_ne_nil_of_mem_piecesUpTo
  refine ⟨⟨placed source (fun p piece => piece.token? p) 0 (pieces source) ++
      [(Token.endMark (Position.after {} source), source.length)], ?_, ?_, by simp, ?_⟩,
    placed source (fun p piece => piece.error? p) 0 (pieces source), ?_, ?_, ?_⟩
  · rw [List.map_append, map_fst_placed hdrop]
    rfl
  · obtain ⟨hsorted, hrange⟩ := sorted_placed source (fun p piece => piece.token? p) 0 hne
    rw [text_pieces] at hrange
    rw [List.map_append, List.pairwise_append]
    refine ⟨hsorted, List.pairwise_singleton _ _, fun o ho q hq => ?_⟩
    obtain rfl : q = source.length := by simpa using hq
    have := hrange o ho
    omega
  · intro t p ht
    rcases List.mem_append.1 ht with ht | ht
    · obtain ⟨piece, hpiece, hread⟩ := beginsAt_of_mem_placed [] rfl ht
      exact hpiece.standsAt_token hread
    · cases List.mem_singleton.1 ht
      exact standsAt_endMark source
  · exact map_fst_placed hdrop
  · exact (sorted_placed source _ 0 hne).1
  · intro e p he
    obtain ⟨piece, hpiece, hread⟩ := beginsAt_of_mem_placed [] rfl he
    exact hpiece.standsAt_error hread

end Wandika
