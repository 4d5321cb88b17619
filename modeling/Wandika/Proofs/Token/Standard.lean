import Mathlib.Tactic
import Wandika.Token.Lexer

/-!
# What the tokens of a scanned text look like

A token of a scanned text is fixed by what it shows: a number by its value, everything else by its
kind and its lexeme, and the lexeme of a reserved word or a mark by its kind alone.

* `Kind.spelling`: the lexeme of reserved words and marks;
* `Token.Standard`: the lexeme and the literal fit the kind;
* `Sign`, `Token.sign`: what a token shows;
* `standard_of_mem_scan`, `tokens_scan`: the tokens of a scanned text are standard, and the end
  mark stands at their end and nowhere else.
-/

namespace Wandika

/-- The lexeme of a reserved word or a mark. The end mark has none. -/
def Kind.spelling (k : Kind) : String :=
  if k = .eof then "" else ((reserved.find? (·.2 = k)).map (·.1)).getD k.name

/-- The lexeme and the literal of a token fit its kind. -/
def Token.Standard (t : Token) : Prop :=
  match t.kind with
  | .identifier => True
  | .number => ∃ x, t.literal = some (.number x)
  | .string => ∃ s, t.literal = some (.text s) ∧ t.lexeme = "\"" ++ s ++ "\""
  | k => t.lexeme = k.spelling

/-- What a token shows: the value of a number, and the lexeme of anything else. -/
inductive Sign
  | number (value : Option Literal)
  | other (kind : Kind) (lexeme : String)

namespace Sign

/-- The kind of a sign. -/
def kind : Sign → Kind
  | .number _ => .number
  | .other k _ => k

/-- The sign of a reserved word or a mark. -/
def mark (k : Kind) : Sign := .other k k.spelling

end Sign

/-- What a token shows. -/
def Token.sign (t : Token) : Sign :=
  if t.kind = .number then .number t.literal else .other t.kind t.lexeme

@[simp] theorem Token.kind_sign (t : Token) : t.sign.kind = t.kind := by
  unfold Token.sign
  split_ifs with h
  · exact h.symm
  · rfl

theorem Token.sign_eq_other {t : Token} (h : t.kind ≠ .number) :
    t.sign = .other t.kind t.lexeme := if_neg h

/-- The kinds whose tokens differ in more than their place. -/
def Kind.varies (k : Kind) : Bool :=
  k = .identifier || k = .number || k = .string

/-- A standard token of any other kind shows the spelling of its kind. -/
theorem Token.Standard.sign_eq_mark {t : Token} (h : t.Standard) (hk : t.kind.varies = false) :
    t.sign = .mark t.kind := by
  have hn : t.kind ≠ .number := by rintro e; simp [e, Kind.varies] at hk
  rw [sign_eq_other hn, Sign.mark]
  have : t.lexeme = t.kind.spelling := by
    unfold Token.Standard at h
    split at h
    · rename_i e; simp [e, Kind.varies] at hk
    · rename_i e; exact absurd e hn
    · rename_i e; simp [e, Kind.varies] at hk
    · exact h
  rw [this]

/-! ### Pieces -/

/-- The token of a piece is standard and no end mark, if it is a token. -/
def Piece.Standard (piece : Piece) : Prop :=
  ∀ p t, piece.token? p = some t → t.Standard ∧ t.kind ≠ .eof

theorem Piece.standard_token {k : Kind} {l : Option Literal} {cs : List Char}
    (h : ∀ p, (⟨k, String.ofList cs, l, p⟩ : Token).Standard ∧ k ≠ .eof) :
    (Piece.token k l cs).Standard := by
  intro p t ht
  simp only [Piece.token?, Option.some.injEq] at ht
  subst ht
  exact h p

theorem spelling_ofMark? {c : Char} {k : Kind} (h : Kind.ofMark? c = some k) :
    String.ofList [c] = k.spelling ∧ k.varies = false ∧ k ≠ .eof := by
  unfold Kind.ofMark? at h
  split at h <;> cases h <;> decide

theorem spelling_ofRelation? {c : Char} {k k' : Kind} (h : Kind.ofRelation? c = some (k, k')) :
    (String.ofList [c] = k.spelling ∧ k.varies = false ∧ k ≠ .eof) ∧
      String.ofList [c, '='] = k'.spelling ∧ k'.varies = false ∧ k' ≠ .eof := by
  unfold Kind.ofRelation? at h
  split at h <;> cases h <;> decide

theorem Token.standard_of_spelling {k : Kind} {lexeme : String} {l : Option Literal}
    {p : Position} (h : lexeme = k.spelling) (hk : k.varies = false) :
    (⟨k, lexeme, l, p⟩ : Token).Standard := by
  unfold Token.Standard
  dsimp only
  split
  · trivial
  · cases hk
  · cases hk
  · exact h

/-- A word is an identifier, or it is spelled like its kind. -/
theorem ofWord_eq (word : String) :
    Kind.ofWord word = .identifier ∨
      (word = (Kind.ofWord word).spelling ∧ (Kind.ofWord word).varies = false ∧
        Kind.ofWord word ≠ .eof) := by
  unfold Kind.ofWord
  cases h : Kind.reserved.lookup word with
  | none => exact Or.inl rfl
  | some k =>
    right
    simp only [Option.getD_some]
    have hm : (word, k) ∈ Kind.reserved := by
      obtain ⟨l₁, l₂, e, -⟩ := List.lookup_eq_some_iff.1 h
      simp [e]
    have all : ∀ q ∈ Kind.reserved,
        q.1 = q.2.spelling ∧ q.2.varies = false ∧ q.2 ≠ .eof := by decide
    exact all _ hm

theorem standard_munchNumber (cs : List Char) : (munchNumber cs).1.Standard := by
  unfold munchNumber
  dsimp only
  split
  · split_ifs <;> exact Piece.standard_token fun p => ⟨⟨_, rfl⟩, by decide⟩
  · exact Piece.standard_token fun p => ⟨⟨_, rfl⟩, by decide⟩

theorem standard_munchWord (cs : List Char) : (munchWord cs).1.Standard := by
  refine Piece.standard_token fun p => ?_
  rcases ofWord_eq (String.ofList (cs.takeWhile Text.isAlphanumeric)) with h | ⟨h, hv, he⟩
  · rw [h]
    exact ⟨trivial, by decide⟩
  · exact ⟨Token.standard_of_spelling h hv, he⟩

theorem standard_munchString (cs : List Char) : (munchString cs).1.Standard := by
  unfold munchString
  dsimp only
  split
  · intro p t ht
    cases ht
  · rename_i quote rest h
    refine Piece.standard_token fun p => ⟨⟨_, rfl, ?_⟩, by decide⟩
    have hq : quote = '"' := by
      have := List.head?_dropWhile_not (· != '"') cs
      rw [h] at this
      simpa using this
    subst hq
    simp [String.ofList_cons, String.ofList_append, String.append_assoc]

/-- Every piece at the front of a text is standard. -/
theorem standard_munch (c : Char) (cs : List Char) : (munch c cs).1.Standard := by
  unfold munch
  split
  · intro p t ht; cases ht
  split
  · exact standard_munchString cs
  split
  · rename_i hc
    split
    · intro p t ht; cases ht
    · subst hc
      exact Piece.standard_token fun p => ⟨Token.standard_of_spelling (by decide) (by decide),
        by decide⟩
  split
  · rename_i k hk
    obtain ⟨hs, hv, he⟩ := spelling_ofMark? hk
    exact Piece.standard_token fun p => ⟨Token.standard_of_spelling hs hv, he⟩
  split
  · rename_i alone joined hr
    obtain ⟨⟨hs, hv, he⟩, hs', hv', he'⟩ := spelling_ofRelation? hr
    split
    · exact Piece.standard_token fun p => ⟨Token.standard_of_spelling hs' hv', he'⟩
    · exact Piece.standard_token fun p => ⟨Token.standard_of_spelling hs hv, he⟩
  split_ifs
  · exact standard_munchNumber _
  · exact standard_munchWord _
  · intro p t ht; cases ht

/-! ### Scanned texts -/

theorem standard_of_mem_piecesUpTo {n : Nat} {cs : List Char} {piece : Piece}
    (h : piece ∈ piecesUpTo n cs) : piece.Standard := by
  induction n generalizing cs with
  | zero => cases h
  | succ n ih =>
    cases cs with
    | nil => cases h
    | cons c cs =>
      rcases List.mem_cons.1 h with rfl | h
      · exact standard_munch c cs
      · exact ih h

theorem mem_of_mem_located {p q : Position} {piece : Piece} {ps : List Piece}
    (h : (q, piece) ∈ located p ps) : piece ∈ ps := by
  induction ps generalizing p with
  | nil => cases h
  | cons first ps ih =>
    rcases List.mem_cons.1 h with h | h
    · cases h; exact List.mem_cons_self
    · exact List.mem_cons_of_mem _ (ih h)

/-- The tokens of a scanned text: standard ones, and the end mark after them. -/
theorem tokens_scan (source : List Char) :
    ∃ body, (scan source).tokens = body ++ [Token.endMark (Position.after {} source)] ∧
      ∀ t ∈ body, t.Standard ∧ t.kind ≠ .eof := by
  refine ⟨_, rfl, fun t ht => ?_⟩
  obtain ⟨⟨p, piece⟩, hm, ht⟩ := List.mem_filterMap.1 ht
  exact standard_of_mem_piecesUpTo (mem_of_mem_located hm) p t ht

/-- Every token of a scanned text is standard. -/
theorem standard_of_mem_scan {source : List Char} {t : Token}
    (h : t ∈ (scan source).tokens) : t.Standard := by
  obtain ⟨body, e, hb⟩ := tokens_scan source
  rw [e, List.mem_append, List.mem_singleton] at h
  rcases h with h | rfl
  · exact (hb t h).1
  · exact Token.standard_of_spelling (by decide) (by decide)

end Wandika
