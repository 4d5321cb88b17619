import Mathlib.Data.Countable.Basic
import Wandika.Proofs.Parser.Acceptance
import Wandika.Proofs.Parser.Relabelled
import Wandika.Proofs.Token.Pieces
import Wandika.Proofs.Tree.Names

/-!
# Source order

The names of a tree, from left to right, stand in the text in this order. That the parser gives
every name the place of its token is read off from a text in which names are spelled as their
places: its tree is that of the text with its names respelled, and shows the same signs.

* `Position.Before`: one place stands before another;
* `sorted_scan`: the tokens of a text stand in order;
* `Program.FromText`: the parser has given the program for tokens that were left of a text;
* `Program.FromText.sorted_names`: the names of the program stand in order.
-/

namespace Wandika

/-! ### Places in order -/

/-- One place stands before another: on an earlier line, or further to the left on the same. -/
def Position.Before (p q : Position) : Prop :=
  p.line < q.line ∨ p.line = q.line ∧ p.column < q.column

instance (p q : Position) : Decidable (p.Before q) :=
  inferInstanceAs (Decidable (_ ∨ _))

/-- One token stands before another. -/
def Token.Before (t u : Token) : Prop := t.pos.Before u.pos

instance (t u : Token) : Decidable (t.Before u) :=
  inferInstanceAs (Decidable (t.pos.Before u.pos))

namespace Position

variable {p q r : Position}

theorem Before.trans (h : p.Before q) (h' : q.Before r) : p.Before r := by
  unfold Before at *
  omega

theorem Before.asymm (h : p.Before q) : ¬ q.Before p := by
  unfold Before at *
  omega

theorem before_next (p : Position) (c : Char) : p.Before (p.next c) := by
  unfold Before next
  split_ifs
  · exact Or.inl (by dsimp only; omega)
  · exact Or.inr ⟨rfl, by dsimp only; omega⟩

theorem before_after (p : Position) {cs : List Char} (h : cs ≠ []) : p.Before (p.after cs) := by
  induction cs generalizing p with
  | nil => exact absurd rfl h
  | cons c cs ih =>
    rw [after_cons]
    by_cases hcs : cs = []
    · subst hcs
      exact p.before_next c
    · exact (p.before_next c).trans (ih _ hcs)

end Position

theorem Token.Before.asymm {t u : Token} (h : t.Before u) : ¬ u.Before t :=
  Position.Before.asymm h

/-- Every piece begins at the first place or after it, and the pieces begin in order. -/
theorem sorted_located {ps : List Piece} (h : ∀ piece ∈ ps, piece.text ≠ []) (p : Position) :
    (∀ a ∈ located p ps, a.1 = p ∨ p.Before a.1) ∧
      (located p ps).Pairwise fun a b => a.1.Before b.1 := by
  induction ps generalizing p with
  | nil => exact ⟨by simp [located], .nil⟩
  | cons piece ps ih =>
    obtain ⟨hfrom, hsorted⟩ := ih (fun q hq => h q (List.mem_cons_of_mem _ hq))
      (p.after piece.text)
    have hp := p.before_after (h piece List.mem_cons_self)
    have hlater : ∀ a ∈ located (p.after piece.text) ps, p.Before a.1 := by
      intro a ha
      rcases hfrom a ha with e | hb
      · rw [e]
        exact hp
      · exact hp.trans hb
    refine ⟨fun a ha => ?_, List.pairwise_cons.2 ⟨hlater, hsorted⟩⟩
    rcases List.mem_cons.1 ha with rfl | ha
    · exact Or.inl rfl
    · exact Or.inr (hlater a ha)

theorem Piece.pos_of_token? {p : Position} {piece : Piece} {t : Token}
    (h : piece.token? p = some t) : t.pos = p := by
  cases piece <;> cases h
  rfl

/-- The tokens of a text stand in order, up to the end mark. -/
theorem sorted_scan (source : List Char) :
    ∃ body, (scan source).tokens = body ++ [Token.endMark (Position.after {} source)] ∧
      body.Pairwise Token.Before := by
  refine ⟨_, rfl, List.pairwise_filterMap.2 ?_⟩
  refine (sorted_located (fun piece h => text_ne_nil_of_mem_piecesUpTo h) {}).2.imp ?_
  rintro ⟨p, piece⟩ ⟨q, piece'⟩ hpq t ht u hu
  show t.pos.Before u.pos
  rw [Piece.pos_of_token? ht, Piece.pos_of_token? hu]
  exact hpq

/-! ### Programs from texts -/

/-- The parser has given the program when the tokens at the cursor were left of a scanned text. It
may have begun at the first token, or gone on after it had rejected one. -/
structure Program.FromText (source : List Char) (c : Cursor) (p : Program) (c' : Cursor) :
    Prop where
  left : c.rest <:+ (scan source).tokens
  parsed : Program.parse c = (.ok p, c')

namespace Program.FromText

variable {source : List Char} {c c' : Cursor} {p : Program}

theorem standard (h : FromText source c p c') : c.Standard :=
  fun _ ht => standard_of_mem_scan (h.left.subset ht)

theorem program_eq (h : FromText source c p c') : Parser.program c = .ok p c' := by
  have := h.parsed
  unfold Program.parse at this
  split at this
  · rename_i heq
    cases this
    exact heq
  · cases this

theorem ensures (h : FromText source c p c') :
    c.Reads p.yield (Stmt.idsAll p.stmts) c' ∧ Stmt.ShapedAll p.stmts ∧ c'.atEnd = true ∧
      p.nodes = c'.nextId := by
  have := Parser.program_ensures c h.standard
  unfold Parser.Ensures at this
  rwa [h.program_eq] at this

/-- The numbers of its nodes begin where the parser stood, and `nodes` is where they end. -/
theorem numbered (h : FromText source c p c') :
    Numbered c.nextId (Stmt.idsAll p.stmts) ∧
      p.nodes = c.nextId + (Stmt.idsAll p.stmts).length := by
  obtain ⟨hr, -, -, hn⟩ := h.ensures
  exact ⟨hr.numbered, hn.trans hr.nextId⟩

/-- The end mark is left, unless nothing was. -/
theorem rest_ne_nil (h : FromText source c p c') (hc : c.rest ≠ []) : c'.rest ≠ [] := by
  obtain ⟨hr, -, -, -⟩ := h.ensures
  obtain ⟨ts, hts, hk, -⟩ := hr.tokens
  intro hnil
  rw [hnil, List.append_nil] at hts
  have hlast : c.rest.getLast hc = Token.endMark (Position.after {} source) := by
    rw [h.left.getLast hc]
    simp [scan]
  refine hk (c.rest.getLast hc) ?_ (by rw [hlast]; rfl)
  rw [← hts]
  exact List.getLast_mem hc

end Program.FromText

/-! ### Names in order -/

/-- Spells every name as a word for its place. -/
def Relabel.spelled (word : Position → String) : Relabel where
  token t := if t.kind = .identifier then { t with lexeme := word t.pos } else t
  kind_token t := by split_ifs <;> rfl
  literal_token t := by split_ifs <;> rfl

section Spelled

variable {word : Position → String}

theorem Relabel.standard_spelled {t : Token} (h : t.Standard) :
    ((Relabel.spelled word).token t).Standard := by
  by_cases hk : t.kind = .identifier
  · simp [Relabel.spelled, hk, Token.Standard]
  · simpa [Relabel.spelled, hk] using h

theorem Relabel.sign_spelled {t : Token} (h : t.kind = .identifier) :
    ((Relabel.spelled word).token t).sign = .other .identifier (word t.pos) := by
  simp [Relabel.spelled, Token.sign, h]

end Spelled

/-- There are enough words for all places. -/
theorem exists_word : ∃ word : Position → String, Function.Injective word := by
  have : Countable Position := by
    refine Function.Injective.countable (f := fun p : Position => (p.line, p.column)) ?_
    rintro ⟨l, c⟩ ⟨l', c'⟩ h
    simpa using h
  obtain ⟨f, hf⟩ := Countable.exists_injective_nat Position
  refine ⟨fun p => String.ofList (List.replicate (f p) 'a'), fun p q h => hf ?_⟩
  simpa using congrArg (fun s : String => s.toList.length) h

/-- The names of the program stand where the identifiers of the text stand that were read. -/
theorem Program.FromText.places {source : List Char} {c c' : Cursor} {p : Program}
    (h : FromText source c p c') : ∃ ts, ts <+: c.rest ∧
      (Stmt.namesAll p.stmts).map Token.pos =
        (ts.filter (·.kind = .identifier)).map Token.pos := by
  obtain ⟨hr, hs, hend, -⟩ := h.ensures
  by_cases hc : c.rest = []
  · obtain ⟨ts, hts, -, hsign⟩ := hr.tokens
    have hts : ts = [] := by
      rw [hc] at hts
      exact (List.append_eq_nil_iff.1 hts.symm).1
    subst hts
    have := identifiers_yield_stmts hs
    rw [show Stmt.yieldAll p.stmts = _ from hsign.symm] at this
    exact ⟨[], List.nil_prefix, by simpa using this.symm⟩
  obtain ⟨word, hword⟩ := exists_word
  let ρ := Relabel.spelled word
  obtain ⟨c₁, hparse, hc₁⟩ := Parser.program_relabel (ρ := ρ) h.program_eq (h.rest_ne_nil hc)
  have hstandard : Cursor.Standard ⟨c.rest.map ρ.token, c.nextId + ρ.offset⟩ := by
    intro t ht
    obtain ⟨u, hu, rfl⟩ := List.mem_map.1 ht
    exact Relabel.standard_spelled (h.standard u hu)
  have hens := Parser.program_ensures _ hstandard
  unfold Parser.Ensures at hens
  rw [hparse] at hens
  obtain ⟨hr', hs', -⟩ := hens
  obtain ⟨_, hts', -, hsign⟩ := hr'.tokens
  obtain ⟨ts, rest, hts, rfl, -⟩ := List.map_eq_append_iff.1 hts'
  refine ⟨ts, ⟨rest, hts.symm⟩, ?_⟩
  -- the respelled tree shows the same identifiers as the respelled tokens
  have hshown : ((Stmt.namesAll p.stmts).map ρ.token).map Token.sign =
      ((ts.filter (·.kind = .identifier)).map ρ.token).map Token.sign := by
    rw [← Stmt.namesAll_relabelAll, ← identifiers_yield_stmts hs', show Stmt.yieldAll _ = _ from
      hsign.symm, identifiers_map_sign, List.filter_map]
    simp [Function.comp_def]
  have hwords : ∀ us : List Token, (∀ t ∈ us, t.kind = .identifier) →
      (us.map ρ.token).map Token.sign =
        (us.map Token.pos).map fun q => Sign.other .identifier (word q) := by
    intro us hus
    rw [List.map_map, List.map_map]
    exact List.map_congr_left fun t ht => Relabel.sign_spelled (hus t ht)
  rw [hwords _ (kind_of_mem_names hs), hwords _ (by simp)] at hshown
  refine List.map_injective_iff.2 (fun q q' hq => ?_) hshown
  exact hword (Sign.other.inj hq).2

/-- The names of the program stand in order. -/
theorem Program.FromText.sorted_names {source : List Char} {c c' : Cursor} {p : Program}
    (h : FromText source c p c') : (Stmt.namesAll p.stmts).Pairwise Token.Before := by
  obtain ⟨ts, hts, hpos⟩ := h.places
  obtain ⟨body, hbody, hsorted⟩ := sorted_scan source
  have hsub : (ts.filter (·.kind = .identifier)).Sublist body := by
    have h₁ := (hts.sublist.trans h.left.sublist).filter (·.kind = .identifier)
    rw [hbody, List.filter_append] at h₁
    exact (by simpa [Token.endMark] using h₁ : List.Sublist _ _).trans List.filter_sublist
  have hp : ((ts.filter (·.kind = .identifier)).map Token.pos).Pairwise Position.Before :=
    List.pairwise_map.2 (hsorted.sublist hsub)
  rw [← hpos, List.pairwise_map] at hp
  exact hp

end Wandika
