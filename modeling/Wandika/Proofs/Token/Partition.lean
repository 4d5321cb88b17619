import Wandika.Proofs.Token.Pieces
import Wandika.Proofs.Token.Standard

/-!
# Scanning is a partition of the text

* `Lexeme`: the lexical grammar, which lexemes there are and what their tokens hold;
* `Piece.Fits`: how a piece may stand in front of the rest of a text; a token has to be the longest
  lexeme there;
* `Divides`: a text is divided into pieces that fit, in order, without gap or overlap;
* `divides_pieces`, `Divides.unique`: the pieces of a text are such a division, and the only one;
* `Token.Scanned`: a token is the end mark or shows a lexeme;
* `scan_partitions`: tokens and errors are read off that division.
-/

namespace Wandika

open Wandika.Text (isLetter isDigit isAlphanumeric)

/-! ### The lexical grammar -/

/-- The marks and operators. Each is spelled by its name. -/
def Kind.symbols : List Kind :=
  [.leftParen, .rightParen, .leftBrace, .rightBrace, .leftSquare, .rightSquare, .comma, .dot,
   .minus, .plus, .semicolon, .slash, .star, .percent, .caret, .question, .colon, .underscore,
   .dollar, .ampersand, .bang, .bangEqual, .equal, .equalEqual, .greater, .greaterEqual, .less,
   .lessEqual]

/-- The lexemes, with the kinds and the literals of their tokens: marks and operators, digits with
an optional fraction, words, and quoted texts without a quote inside. -/
inductive Lexeme : Kind → Option Literal → List Char → Prop
  | symbol {k : Kind} (mem : k ∈ Kind.symbols) : Lexeme k none k.name.toList
  | whole {ds : List Char} (ne_nil : ds ≠ []) (digits : ∀ c ∈ ds, isDigit c = true) :
      Lexeme .number (some (.number (Decimal.readLiteral ds []))) ds
  | decimal {ds fs : List Char} (ne_nil : ds ≠ []) (digits : ∀ c ∈ ds, isDigit c = true)
      (fraction_ne_nil : fs ≠ []) (fraction : ∀ c ∈ fs, isDigit c = true) :
      Lexeme .number (some (.number (Decimal.readLiteral ds fs))) (ds ++ '.' :: fs)
  | word {c : Char} {cs : List Char} (letter : isLetter c = true)
      (rest : ∀ d ∈ cs, isAlphanumeric d = true) :
      Lexeme (Kind.ofWord (String.ofList (c :: cs))) none (c :: cs)
  | string {body : List Char} (inside : '"' ∉ body) :
      Lexeme .string (some (.text (String.ofList body))) ('"' :: (body ++ ['"']))

/-- How a piece may stand in front of the rest of a text. A token is the longest lexeme there and
begins no comment, a comment goes up to the end of its line, an unexpected character begins nothing
else, and only the end of the text can leave a string open. -/
inductive Piece.Fits : Piece → List Char → Prop
  | token {k : Kind} {l : Option Literal} {text rest : List Char} (lexeme : Lexeme k l text)
      (code : ¬ ['/', '/'] <+: text ++ rest)
      (longest : ∀ {k' : Kind} {l' : Option Literal} {text' : List Char}, Lexeme k' l' text' →
        text' <+: text ++ rest → text'.length ≤ text.length) :
      Fits (.token k l text) rest
  | blank {c : Char} {rest : List Char} (separator : isSeparator c = true) : Fits (.blank c) rest
  | comment {body rest : List Char} (line : '\n' ∉ body)
      (stop : rest = [] ∨ rest.head? = some '\n') : Fits (.comment ('/' :: '/' :: body)) rest
  | unexpected {c : Char} {rest : List Char} (separator : isSeparator c = false) (quote : c ≠ '"')
      (strange : ∀ {k : Kind} {l : Option Literal} {text : List Char}, Lexeme k l text →
        ¬ text <+: c :: rest) :
      Fits (.unexpected c) rest
  | unterminated {body : List Char} (inside : '"' ∉ body) : Fits (.unterminated ('"' :: body)) []

/-- The text is divided into the pieces, in order, without gap or overlap. -/
inductive Divides : List Char → List Piece → Prop
  | nil : Divides [] []
  | cons {piece : Piece} {rest : List Char} {ps : List Piece} (fits : piece.Fits rest)
      (more : Divides rest ps) : Divides (piece.text ++ rest) (piece :: ps)

/-! ### How lexemes begin -/

/-- A mark or an operator is one character, or a relation that is joined with `=`. -/
theorem Kind.symbol_cases {k : Kind} (hk : k ∈ Kind.symbols) {c : Char} {cs : List Char}
    (h : k.name.toList = c :: cs) :
    ((cs = [] ∧ ((c = '/' ∧ k = .slash) ∨ Kind.ofMark? c = some k ∨
          ∃ k', Kind.ofRelation? c = some (k, k'))) ∨
        (cs = ['='] ∧ ∃ k', Kind.ofRelation? c = some (k', k))) ∧
      isDigit c = false ∧ isLetter c = false ∧ isSeparator c = false ∧ c ≠ '"' := by
  have all : ∀ k ∈ Kind.symbols,
      ((k.name.toList.tail = [] ∧ ((k.name.toList.headD ' ' = '/' ∧ k = .slash) ∨
          Kind.ofMark? (k.name.toList.headD ' ') = some k ∨
          (Kind.ofRelation? (k.name.toList.headD ' ')).map Prod.fst = some k)) ∨
        (k.name.toList.tail = ['='] ∧
          (Kind.ofRelation? (k.name.toList.headD ' ')).map Prod.snd = some k)) ∧
      isDigit (k.name.toList.headD ' ') = false ∧ isLetter (k.name.toList.headD ' ') = false ∧
      isSeparator (k.name.toList.headD ' ') = false ∧ k.name.toList.headD ' ' ≠ '"' := by
    decide
  have := all k hk
  rw [h] at this
  simpa using this

theorem ofMark?_class {c : Char} {k : Kind} (h : Kind.ofMark? c = some k) :
    (k ∈ Kind.symbols ∧ k.name.toList = [c]) ∧ Kind.ofRelation? c = none ∧ isDigit c = false ∧
      isLetter c = false ∧ c ≠ '"' ∧ c ≠ '/' := by
  unfold Kind.ofMark? at h
  split at h <;> cases h <;> decide

theorem ofRelation?_class {c : Char} {k k' : Kind} (h : Kind.ofRelation? c = some (k, k')) :
    (k ∈ Kind.symbols ∧ k.name.toList = [c]) ∧ (k' ∈ Kind.symbols ∧ k'.name.toList = [c, '=']) ∧
      isDigit c = false ∧ isLetter c = false ∧ c ≠ '"' ∧ c ≠ '/' := by
  unfold Kind.ofRelation? at h
  split at h <;> cases h <;> decide

theorem isLetter_of_isDigit {c : Char} (h : isDigit c = true) : isLetter c = false := by
  have hd : 48 ≤ c.toNat ∧ c.toNat ≤ 57 := by
    simpa [isDigit, Char.le_def, UInt32.le_iff_toNat_le, ← Char.toNat_val] using h
  have hlow : c.toNat < 0x80 := by omega
  have halpha : ¬ c.isAlpha = true := by
    delta Char.isAlpha Char.isUpper Char.isLower
    simp only [UInt32.le_iff_toNat_le, ge_iff_le, Char.toNat_val, Bool.or_eq_true,
      Bool.and_eq_true, decide_eq_true_eq]
    simp
    omega
  simp [isLetter, hlow, halpha]

section Lexeme

variable {k : Kind} {l : Option Literal} {c : Char} {cs text : List Char}

/-- What a lexeme looks like, told by its first character. -/
theorem Lexeme.cases_head (h : Lexeme k l (c :: cs)) :
    (k ∈ Kind.symbols ∧ k.name.toList = c :: cs) ∨
    (isDigit c = true ∧ ((∀ d ∈ cs, isDigit d = true) ∨ ∃ ds fs, c :: cs = ds ++ '.' :: fs ∧
      (∀ d ∈ ds, isDigit d = true) ∧ fs ≠ [] ∧ ∀ d ∈ fs, isDigit d = true)) ∨
    (isLetter c = true ∧ ∀ d ∈ cs, isAlphanumeric d = true) ∨
    (c = '"' ∧ ∃ body, '"' ∉ body ∧ cs = body ++ ['"']) := by
  generalize ht : c :: cs = text at h
  cases h with
  | symbol mem => exact Or.inl ⟨mem, rfl⟩
  | whole ne_nil digits =>
    subst ht
    rw [List.forall_mem_cons] at digits
    exact Or.inr (Or.inl ⟨digits.1, Or.inl digits.2⟩)
  | @decimal ds fs ne_nil digits fraction_ne_nil fraction =>
    have hc : c ∈ ds := by
      obtain ⟨d, ds, rfl⟩ := List.exists_cons_of_ne_nil ne_nil
      rw [(List.cons.inj ht).1]
      exact List.mem_cons_self
    exact Or.inr (Or.inl ⟨digits c hc, Or.inr ⟨ds, fs, rfl, digits, fraction_ne_nil, fraction⟩⟩)
  | word letter rest =>
    obtain ⟨rfl, rfl⟩ := List.cons.inj ht
    exact Or.inr (Or.inr (Or.inl ⟨letter, rest⟩))
  | string inside =>
    obtain ⟨rfl, rfl⟩ := List.cons.inj ht
    exact Or.inr (Or.inr (Or.inr ⟨rfl, _, inside, rfl⟩))

theorem Lexeme.ne_nil (h : Lexeme k l text) : text ≠ [] := by
  cases h with
  | symbol mem =>
    intro e
    have all : ∀ k ∈ Kind.symbols, k.name.toList ≠ [] := by decide
    exact all k mem e
  | whole ne_nil => exact ne_nil
  | decimal => simp
  | word => simp
  | string => simp

/-- A lexeme at the front of a text begins with its first character. -/
theorem Lexeme.of_prefix (h : Lexeme k l text) (hp : text <+: c :: cs) :
    ∃ t, text = c :: t ∧ t <+: cs ∧ Lexeme k l (c :: t) := by
  obtain ⟨d, t, rfl⟩ := List.exists_cons_of_ne_nil h.ne_nil
  obtain ⟨rfl, ht⟩ := List.cons_prefix_cons.1 hp
  exact ⟨t, rfl, ht, h⟩

theorem Lexeme.of_separator (hc : isSeparator c = true) : ¬ Lexeme k l (c :: cs) := by
  intro h
  obtain ⟨hd, hl, hq, -⟩ := isSeparator_class hc
  rcases h.cases_head with ⟨mem, hn⟩ | ⟨h, -⟩ | ⟨h, -⟩ | ⟨h, -⟩
  · have := (Kind.symbol_cases mem hn).2.2.2.1
    simp [hc] at this
  · simp [hd] at h
  · simp [hl] at h
  · exact hq h

theorem Lexeme.of_quote (h : Lexeme k l ('"' :: cs)) : ∃ body, '"' ∉ body ∧ cs = body ++ ['"'] := by
  rcases h.cases_head with ⟨mem, hn⟩ | ⟨h, -⟩ | ⟨h, -⟩ | ⟨-, h⟩
  · exact absurd rfl (Kind.symbol_cases mem hn).2.2.2.2
  · exact absurd h (by decide)
  · exact absurd h (by decide)
  · exact h

theorem Lexeme.of_slash (h : Lexeme k l ('/' :: cs)) : cs = [] := by
  rcases h.cases_head with ⟨mem, hn⟩ | ⟨h, -⟩ | ⟨h, -⟩ | ⟨h, -⟩
  · rcases (Kind.symbol_cases mem hn).1 with ⟨h, -⟩ | ⟨-, k', h⟩
    · exact h
    · exact absurd rfl (ofRelation?_class h).2.2.2.2.2
  · exact absurd h (by decide)
  · exact absurd h (by decide)
  · exact absurd h (by decide)

theorem Lexeme.of_mark {k₀ : Kind} (hc : Kind.ofMark? c = some k₀) (h : Lexeme k l (c :: cs)) :
    cs = [] := by
  obtain ⟨-, hr, hd, hl, hq, -⟩ := ofMark?_class hc
  rcases h.cases_head with ⟨mem, hn⟩ | ⟨h, -⟩ | ⟨h, -⟩ | ⟨h, -⟩
  · rcases (Kind.symbol_cases mem hn).1 with ⟨h, -⟩ | ⟨-, k', h⟩
    · exact h
    · rw [hr] at h
      cases h
  · simp [hd] at h
  · simp [hl] at h
  · exact absurd h hq

theorem Lexeme.of_relation {ks : Kind × Kind} (hc : Kind.ofRelation? c = some ks)
    (h : Lexeme k l (c :: cs)) : cs = [] ∨ cs = ['='] := by
  obtain ⟨-, -, hd, hl, hq, -⟩ := ofRelation?_class hc
  rcases h.cases_head with ⟨mem, hn⟩ | ⟨h, -⟩ | ⟨h, -⟩ | ⟨h, -⟩
  · rcases (Kind.symbol_cases mem hn).1 with ⟨h, -⟩ | ⟨h, -⟩
    · exact Or.inl h
    · exact Or.inr h
  · simp [hd] at h
  · simp [hl] at h
  · exact absurd h hq

theorem Lexeme.of_digit (hc : isDigit c = true) (h : Lexeme k l (c :: cs)) :
    (∀ d ∈ c :: cs, isDigit d = true) ∨ ∃ ds fs, c :: cs = ds ++ '.' :: fs ∧
      (∀ d ∈ ds, isDigit d = true) ∧ fs ≠ [] ∧ ∀ d ∈ fs, isDigit d = true := by
  rcases h.cases_head with ⟨mem, hn⟩ | ⟨-, h | h⟩ | ⟨h, -⟩ | ⟨rfl, -⟩
  · have := (Kind.symbol_cases mem hn).2.1
    simp [hc] at this
  · exact Or.inl (List.forall_mem_cons.2 ⟨hc, h⟩)
  · exact Or.inr h
  · simp [isLetter_of_isDigit hc] at h
  · exact absurd hc (by decide)

theorem Lexeme.of_letter (hc : isLetter c = true) (h : Lexeme k l (c :: cs)) :
    ∀ d ∈ cs, isAlphanumeric d = true := by
  rcases h.cases_head with ⟨mem, hn⟩ | ⟨h, -⟩ | ⟨-, h⟩ | ⟨rfl, -⟩
  · have := (Kind.symbol_cases mem hn).2.2.1
    simp [hc] at this
  · simp [isLetter_of_isDigit h] at hc
  · exact h
  · exact absurd hc (by decide)

/-- A character that belongs to no class begins no lexeme. -/
theorem Lexeme.of_other (hq : c ≠ '"') (hs : c ≠ '/') (hm : ∀ k, Kind.ofMark? c ≠ some k)
    (hr : ∀ k k', Kind.ofRelation? c ≠ some (k, k')) (hd : isDigit c = false)
    (hl : isLetter c = false) : ¬ Lexeme k l (c :: cs) := by
  intro h
  rcases h.cases_head with ⟨mem, hn⟩ | ⟨h, -⟩ | ⟨h, -⟩ | ⟨h, -⟩
  · rcases (Kind.symbol_cases mem hn).1 with ⟨-, ⟨h, -⟩ | h | ⟨k', h⟩⟩ | ⟨-, k', h⟩
    · exact hs h
    · exact hm k h
    · exact hr k k' h
    · exact hr k' k h
  · simp [hd] at h
  · simp [hl] at h
  · exact hq h

end Lexeme

/-! ### Lexemes by themselves -/

section Alone

variable {k : Kind} {l : Option Literal} {c : Char} {cs text : List Char}

theorem munch_of_mark (hc : isSeparator c = false) (h : Kind.ofMark? c = some k) :
    munch c cs = (.token k none [c], cs) := by
  obtain ⟨-, -, -, -, hq, hs⟩ := ofMark?_class h
  simp [munch, hc, hq, hs, h]

theorem munch_of_relation {k' : Kind} (hc : isSeparator c = false)
    (h : Kind.ofRelation? c = some (k, k')) :
    munch c [] = (.token k none [c], []) ∧
      ∀ cs, munch c ('=' :: cs) = (.token k' none [c, '='], cs) := by
  obtain ⟨-, -, -, -, hq, hs⟩ := ofRelation?_class h
  have hm : Kind.ofMark? c = none := by
    cases hm : Kind.ofMark? c with
    | none => rfl
    | some j =>
      rw [(ofMark?_class hm).2.1] at h
      cases h
  simp [munch, hc, hq, hs, hm, h]

/-- A digit or a letter is none of the characters that are looked at first. -/
theorem munch_of_alphanumeric (h : isAlphanumeric c = true) :
    munch c cs = if isDigit c then munchNumber (c :: cs) else munchWord (c :: cs) := by
  have hsep : isSeparator c = false := by
    cases hsep : isSeparator c with
    | false => rfl
    | true =>
      obtain ⟨hd, hl, -⟩ := isSeparator_class hsep
      simp [isAlphanumeric, hd, hl] at h
  have hm : Kind.ofMark? c = none := by
    cases hm : Kind.ofMark? c with
    | none => rfl
    | some j =>
      obtain ⟨-, -, hd, hl, -⟩ := ofMark?_class hm
      simp [isAlphanumeric, hd, hl] at h
  have hr : Kind.ofRelation? c = none := by
    cases hr : Kind.ofRelation? c with
    | none => rfl
    | some ks =>
      obtain ⟨-, -, hd, hl, -⟩ := ofRelation?_class hr
      simp [isAlphanumeric, hd, hl] at h
  have hq : c ≠ '"' := by
    rintro rfl
    exact absurd h (by decide)
  have hs : c ≠ '/' := by
    rintro rfl
    exact absurd h (by decide)
  cases hd : isDigit c with
  | true => simp [munch, hsep, hq, hs, hm, hr, hd]
  | false =>
    have hl : isLetter c = true := by simpa [isAlphanumeric, hd] using h
    simp [munch, hsep, hq, hs, hm, hr, hd, hl]

/-- A lexeme that stands alone is cut off whole. -/
theorem Lexeme.munch (h : Lexeme k l (c :: cs)) : munch c cs = (.token k l (c :: cs), []) := by
  generalize ht : c :: cs = text at h
  cases h with
  | symbol mem =>
    rcases Kind.symbol_cases mem ht.symm with ⟨⟨rfl, ⟨rfl, rfl⟩ | hm | ⟨k', hr⟩⟩ | ⟨rfl, k', hr⟩,
      -, -, hsep, -⟩
    · rfl
    · rw [munch_of_mark hsep hm, ht]
    · rw [(munch_of_relation hsep hr).1, ht]
    · rw [(munch_of_relation hsep hr).2, ht]
  | whole ne_nil digits =>
    subst ht
    have hd := digits c List.mem_cons_self
    rw [munch_of_alphanumeric (Text.isAlphanumeric_of_isDigit hd), if_pos hd, munchNumber]
    simp only [takeWhile_of_all isDigit digits, dropWhile_of_all isDigit digits]
  | @decimal ds fs ne_nil digits fraction_ne_nil fraction =>
    obtain ⟨f, fs, rfl⟩ := List.exists_cons_of_ne_nil fraction_ne_nil
    have hd : isDigit c = true := by
      obtain ⟨d, ds, rfl⟩ := List.exists_cons_of_ne_nil ne_nil
      rw [(List.cons.inj ht).1]
      exact digits d List.mem_cons_self
    have hf : isDigit f = true := fraction f List.mem_cons_self
    rw [munch_of_alphanumeric (Text.isAlphanumeric_of_isDigit hd), if_pos hd, munchNumber, ht,
      takeWhile_append_stop isDigit rfl, dropWhile_append_stop isDigit rfl,
      takeWhile_of_all isDigit digits, dropWhile_of_all isDigit digits]
    simp only [List.nil_append, hf, if_true, takeWhile_of_all isDigit fraction,
      dropWhile_of_all isDigit fraction]
  | word letter rest =>
    obtain ⟨rfl, rfl⟩ := List.cons.inj ht
    have ha := Text.isAlphanumeric_of_isLetter letter
    have hall : ∀ d ∈ c :: cs, isAlphanumeric d = true := List.forall_mem_cons.2 ⟨ha, rest⟩
    have hd : isDigit c = false := by
      cases hd : isDigit c with
      | false => rfl
      | true => simp [isLetter_of_isDigit hd] at letter
    rw [munch_of_alphanumeric ha, if_neg (by simp [hd]), munchWord]
    simp only [takeWhile_of_all isAlphanumeric hall, dropWhile_of_all isAlphanumeric hall]
  | @string body inside =>
    obtain ⟨rfl, rfl⟩ := List.cons.inj ht
    have hbody : ∀ x ∈ body, (fun x : Char => x != '"') x = true := by
      intro x hx
      simpa using fun e : x = '"' => inside (e ▸ hx)
    show munchString _ = _
    rw [munchString, List.takeWhile_append_of_pos hbody, List.dropWhile_append_of_pos hbody]
    simp

/-- A lexeme belongs to one kind and holds one literal. -/
theorem Lexeme.unique {k' : Kind} {l' : Option Literal} (h : Lexeme k l text)
    (h' : Lexeme k' l' text) : k = k' ∧ l = l' := by
  obtain ⟨c, cs, rfl⟩ := List.exists_cons_of_ne_nil h.ne_nil
  have := h.munch.symm.trans h'.munch
  simpa using this

end Alone

/-! ### The pieces fit -/

section Fits

variable {k : Kind} {l : Option Literal} {c : Char} {cs text rest : List Char}

/-- A lexeme that does not begin with a slash fits if no longer one begins like it. -/
theorem Piece.fits_token (h : Lexeme k l text) (ht : text ++ rest = c :: cs) (hc : c ≠ '/')
    (longest : ∀ {k' : Kind} {l' : Option Literal} {t : List Char}, Lexeme k' l' (c :: t) →
      t <+: cs → t.length < text.length) : (Piece.token k l text).Fits rest := by
  refine .token h ?_ ?_
  · rw [ht]
    intro hp
    exact hc (List.cons_prefix_cons.1 hp).1.symm
  · intro k' l' text' h' hp
    rw [ht] at hp
    obtain ⟨t, rfl, hp, h'⟩ := h'.of_prefix hp
    exact longest h' hp

theorem fits_munchString (cs : List Char) : (munchString cs).1.Fits (munchString cs).2 := by
  have hcut : cs.takeWhile (· != '"') ++ cs.dropWhile (· != '"') = cs :=
    List.takeWhile_append_dropWhile
  have inside : '"' ∉ cs.takeWhile (· != '"') := by
    intro hm
    simpa using List.all_eq_true.1 List.all_takeWhile '"' hm
  have stop := List.head?_dropWhile_not (· != '"') cs
  unfold munchString
  dsimp only
  split
  · exact .unterminated inside
  · rename_i quote more hrest
    rw [hrest] at hcut stop
    obtain rfl : quote = '"' := by simpa using stop
    have htext : '"' :: (cs.takeWhile (· != '"') ++ ['"']) ++ more = '"' :: cs := by
      simpa using hcut
    refine Piece.fits_token (.string inside) htext (by decide) fun h hp => ?_
    -- both texts end at the first quote after the opening one
    obtain ⟨body, hbody, rfl⟩ := h.of_quote
    obtain ⟨z, hz⟩ := hp
    have hb : ∀ x ∈ body, (fun x : Char => x != '"') x = true := by
      intro x hx
      simpa using fun e : x = '"' => hbody (e ▸ hx)
    have : cs.takeWhile (· != '"') = body := by
      rw [← hz, List.append_assoc, List.takeWhile_append_of_pos hb]
      simp
    rw [this]
    simp

theorem fits_munchComment (cs : List Char) : (munchComment cs).1.Fits (munchComment cs).2 := by
  refine .comment ?_ ?_
  · intro hm
    simpa using List.all_eq_true.1 List.all_takeWhile '\n' hm
  · show cs.dropWhile (· != '\n') = [] ∨ (cs.dropWhile (· != '\n')).head? = some '\n'
    have stop := List.head?_dropWhile_not (· != '\n') cs
    cases h : cs.dropWhile (· != '\n') with
    | nil => exact Or.inl rfl
    | cons x xs =>
      rw [h] at stop
      right
      simpa using stop

theorem fits_munchNumber (hd : isDigit c = true) :
    (munchNumber (c :: cs)).1.Fits (munchNumber (c :: cs)).2 := by
  have hc : c ≠ '/' := by
    rintro rfl
    exact absurd hd (by decide)
  have hcut : (c :: cs).takeWhile isDigit ++ (c :: cs).dropWhile isDigit = c :: cs :=
    List.takeWhile_append_dropWhile
  have hne : (c :: cs).takeWhile isDigit ≠ [] := by simp [hd]
  have hdigits : ∀ x ∈ (c :: cs).takeWhile isDigit, isDigit x = true :=
    List.all_eq_true.1 List.all_takeWhile
  -- a lexeme is digits only, or its point stands where the digits end
  have digits_only : ∀ {t : List Char}, t <+: cs → (∀ d ∈ c :: t, isDigit d = true) →
      t.length < ((c :: cs).takeWhile isDigit).length := by
    intro t hp ht
    obtain ⟨z, rfl⟩ := hp
    rw [← List.cons_append, List.takeWhile_append_of_pos ht]
    simp
  have with_point : ∀ {t ds fs : List Char}, t <+: cs → c :: t = ds ++ '.' :: fs →
      (∀ d ∈ ds, isDigit d = true) → ∃ z, (c :: cs).takeWhile isDigit = ds ∧
        (c :: cs).dropWhile isDigit = '.' :: (fs ++ z) := by
    intro t ds fs hp ht hds
    obtain ⟨z, rfl⟩ := hp
    refine ⟨z, ?_, ?_⟩
    · rw [← List.cons_append, ht, List.append_assoc, List.takeWhile_append_of_pos hds]
      exact List.append_nil ds
    · rw [← List.cons_append, ht, List.append_assoc, List.dropWhile_append_of_pos hds]
      rfl
  unfold munchNumber
  dsimp only
  split
  · rename_i d more hrest
    split_ifs with hdig
    · have hfraction : ∀ x ∈ (d :: more).takeWhile isDigit, isDigit x = true :=
        List.all_eq_true.1 List.all_takeWhile
      have htext : (c :: cs).takeWhile isDigit ++ '.' :: (d :: more).takeWhile isDigit ++
          (d :: more).dropWhile isDigit = c :: cs := by
        rw [List.append_assoc, List.cons_append, List.takeWhile_append_dropWhile, ← hrest, hcut]
      refine Piece.fits_token (.decimal hne hdigits (by simp [hdig]) hfraction) htext hc ?_
      intro k' l' t h hp
      rcases h.of_digit hd with ht | ⟨ds, fs, ht, hds, -, hfs⟩
      · have := digits_only hp ht
        rw [List.length_append]
        omega
      · obtain ⟨z, hw, hr⟩ := with_point hp ht hds
        have hmore : d :: more = fs ++ z := (List.cons.inj (hrest.symm.trans hr)).2
        have hlen := congrArg List.length ht
        rw [hmore, List.takeWhile_append_of_pos hfs, hw]
        simp only [List.length_cons, List.length_append] at hlen ⊢
        omega
    · refine Piece.fits_token (.whole hne hdigits) hcut hc ?_
      intro k' l' t h hp
      rcases h.of_digit hd with ht | ⟨ds, fs, ht, hds, hfne, hfs⟩
      · exact digits_only hp ht
      · obtain ⟨z, -, hr⟩ := with_point hp ht hds
        obtain ⟨f, fs, rfl⟩ := List.exists_cons_of_ne_nil hfne
        have hmore := (List.cons.inj (hrest.symm.trans hr)).2
        rw [(List.cons.inj hmore).1] at hdig
        exact absurd (hfs f List.mem_cons_self) hdig
  · rename_i hno
    refine Piece.fits_token (.whole hne hdigits) hcut hc ?_
    intro k' l' t h hp
    rcases h.of_digit hd with ht | ⟨ds, fs, ht, hds, hfne, -⟩
    · exact digits_only hp ht
    · obtain ⟨z, -, hr⟩ := with_point hp ht hds
      obtain ⟨f, fs, rfl⟩ := List.exists_cons_of_ne_nil hfne
      exact absurd hr (hno f (fs ++ z))

theorem fits_munchWord (hl : isLetter c = true) :
    (munchWord (c :: cs)).1.Fits (munchWord (c :: cs)).2 := by
  have hc : c ≠ '/' := by
    rintro rfl
    exact absurd hl (by decide)
  have ha := Text.isAlphanumeric_of_isLetter hl
  have hword : (c :: cs).takeWhile isAlphanumeric = c :: cs.takeWhile isAlphanumeric := by
    simp [ha]
  have hrest : ∀ x ∈ cs.takeWhile isAlphanumeric, isAlphanumeric x = true :=
    List.all_eq_true.1 List.all_takeWhile
  have htext : c :: cs.takeWhile isAlphanumeric ++ cs.dropWhile isAlphanumeric = c :: cs := by
    simp
  rw [munchWord, hword, List.dropWhile_cons_of_pos ha]
  refine Piece.fits_token (.word hl hrest) htext hc fun h hp => ?_
  obtain ⟨z, rfl⟩ := hp
  rw [List.takeWhile_append_of_pos (h.of_letter hl)]
  simp

/-- The first piece of a text fits. -/
theorem fits_munch (c : Char) (cs : List Char) : (munch c cs).1.Fits (munch c cs).2 := by
  unfold munch
  split
  · exact .blank ‹_›
  rename_i hsep
  split
  · exact fits_munchString cs
  rename_i hq
  split
  · rename_i hslash
    subst hslash
    split
    · exact fits_munchComment _
    · rename_i hno
      have hlex : Lexeme .slash none ['/'] := Lexeme.symbol (by decide)
      refine .token hlex ?_ fun h hp => ?_
      · intro hp
        obtain ⟨z, hz⟩ := hp
        exact hno z (by simpa using hz.symm)
      · obtain ⟨t, rfl, -, h⟩ := h.of_prefix hp
        rw [h.of_slash]
  rename_i hslash
  split
  · rename_i k hm
    obtain ⟨⟨mem, hn⟩, -⟩ := ofMark?_class hm
    have hlex := Lexeme.symbol mem
    rw [hn] at hlex
    refine Piece.fits_token hlex rfl hslash fun h _ => ?_
    rw [h.of_mark hm]
    simp
  rename_i hm
  split
  · rename_i alone joined hr
    obtain ⟨⟨mem, hn⟩, ⟨mem', hn'⟩, -⟩ := ofRelation?_class hr
    have hlex := Lexeme.symbol mem
    have hlex' := Lexeme.symbol mem'
    rw [hn] at hlex
    rw [hn'] at hlex'
    split
    · refine Piece.fits_token hlex' rfl hslash fun h _ => ?_
      rcases h.of_relation hr with rfl | rfl <;> simp
    · rename_i hno
      refine Piece.fits_token hlex rfl hslash fun h hp => ?_
      rcases h.of_relation hr with rfl | rfl
      · simp
      · obtain ⟨z, rfl⟩ := hp
        exact absurd rfl (hno z)
  rename_i hr
  split
  · exact fits_munchNumber ‹_›
  rename_i hd
  split
  · exact fits_munchWord ‹_›
  rename_i hl
  refine .unexpected (by simpa using hsep) hq fun h hp => ?_
  obtain ⟨t, -, -, h⟩ := h.of_prefix hp
  exact Lexeme.of_other hq hslash hm hr (by simpa using hd) (by simpa using hl) h

end Fits

/-! ### The division is the only one -/

/-- A piece that fits is the one that is cut off. -/
theorem Piece.Fits.munch {piece : Piece} {c : Char} {cs rest : List Char} (h : piece.Fits rest)
    (e : piece.text ++ rest = c :: cs) : munch c cs = (piece, rest) := by
  have hfits := fits_munch c cs
  have htext := munch_text c cs
  cases h with
  | @token k l text rest lexeme code longest =>
    rw [Piece.text] at e
    have hp : text <+: c :: cs := ⟨rest, e⟩
    obtain ⟨t, rfl, -, hlex⟩ := lexeme.of_prefix hp
    cases hm : Wandika.munch c cs with
    | mk piece' rest' =>
      rw [hm] at hfits htext
      dsimp only at hfits htext
      cases hfits with
      | @token k' l' text' _ lexeme' code' longest' =>
        -- both are the longest lexeme at the front of the text
        have hp' : text' <+: c :: cs := ⟨rest', htext⟩
        have hle := longest lexeme' (e.symm ▸ hp')
        have hge := longest' lexeme (htext.symm ▸ hp)
        obtain rfl : text' = c :: t :=
          (List.prefix_of_prefix_length_le hp' hp hle).eq_of_length (le_antisymm hle hge)
        obtain ⟨rfl, rfl⟩ := lexeme.unique lexeme'
        rw [List.append_cancel_left (htext.trans e.symm)]
      | blank separator =>
        obtain ⟨rfl, -⟩ := List.cons.inj htext
        exact absurd hlex (Lexeme.of_separator separator)
      | comment =>
        exact absurd ⟨_, htext⟩ (e.symm ▸ code)
      | unexpected separator quote strange =>
        obtain ⟨rfl, rfl⟩ := List.cons.inj htext
        exact absurd hp (strange lexeme)
      | unterminated inside =>
        rw [List.append_nil] at htext
        obtain ⟨rfl, rfl⟩ := List.cons.inj htext
        obtain ⟨body, -, rfl⟩ := hlex.of_quote
        exact absurd (by simp) fun hn => inside ((List.cons_prefix_cons.1 hp).2.subset hn)
  | blank separator =>
    obtain ⟨rfl, rfl⟩ := List.cons.inj e
    simp [Wandika.munch, separator]
  | @comment body rest line stop =>
    obtain ⟨rfl, rfl⟩ := List.cons.inj e
    have hbody : ∀ x ∈ body, (fun x : Char => x != '\n') x = true := by
      intro x hx
      simpa using fun e : x = '\n' => line (e ▸ hx)
    show munchComment (body ++ rest) = _
    rw [munchComment, List.takeWhile_append_of_pos hbody, List.dropWhile_append_of_pos hbody]
    rcases stop with rfl | hstop
    · simp
    · obtain ⟨xs, rfl⟩ : ∃ xs, rest = '\n' :: xs := by
        cases rest with
        | nil => cases hstop
        | cons x xs => exact ⟨xs, by rw [Option.some.inj hstop]⟩
      simp
  | @unexpected d rest separator quote strange =>
    obtain ⟨rfl, rfl⟩ : d = c ∧ rest = cs := List.cons.inj e
    cases hm : Wandika.munch d rest with
    | mk piece' rest' =>
      rw [hm] at hfits htext
      dsimp only at hfits htext
      cases hfits with
      | token lexeme code longest => exact absurd ⟨rest', htext⟩ (strange lexeme)
      | blank separator' =>
        obtain ⟨rfl, -⟩ := List.cons.inj htext
        simp [separator'] at separator
      | comment =>
        obtain ⟨rfl, -⟩ := List.cons.inj htext
        have hlex : Lexeme .slash none ['/'] := Lexeme.symbol (by decide)
        exact absurd ⟨rest, rfl⟩ (strange hlex)
      | unexpected =>
        obtain ⟨rfl, rfl⟩ := List.cons.inj htext
        rfl
      | unterminated =>
        obtain ⟨rfl, -⟩ := List.cons.inj htext
        exact absurd rfl quote
  | @unterminated body inside =>
    rw [Piece.text, List.append_nil] at e
    obtain ⟨rfl, rfl⟩ := List.cons.inj e
    have hbody : ∀ x ∈ body, (fun x : Char => x != '"') x = true := by
      intro x hx
      simpa using fun e : x = '"' => inside (e ▸ hx)
    show munchString body = _
    simp only [munchString, takeWhile_of_all _ hbody, dropWhile_of_all _ hbody]

/-- The pieces of a text divide it. -/
theorem divides_pieces (source : List Char) : Divides source (pieces source) := by
  induction hn : source.length using Nat.strong_induction_on generalizing source with
  | _ n ih =>
    cases source with
    | nil => exact .nil
    | cons c cs =>
      have hlt := munch_shorter c cs
      simp only [List.length_cons] at hn
      have hrest := ih _ (by omega) (munch c cs).2 rfl
      rw [pieces_cons]
      conv => rw [← munch_text c cs]
      exact .cons (fits_munch c cs) hrest

/-- A piece that fits is the first one of the text. -/
theorem Piece.Fits.pieces_eq {piece : Piece} {rest : List Char} (h : piece.Fits rest) :
    pieces (piece.text ++ rest) = piece :: pieces rest := by
  obtain ⟨c, cs, e⟩ : ∃ c cs, piece.text ++ rest = c :: cs := by
    cases h with
    | token lexeme =>
      obtain ⟨c, t, ht⟩ := List.exists_cons_of_ne_nil lexeme.ne_nil
      exact ⟨c, t ++ rest, by rw [Piece.text, ht, List.cons_append]⟩
    | blank | comment | unexpected | unterminated => exact ⟨_, _, rfl⟩
  rw [e, pieces_cons, h.munch e]

/-- There is no other division. -/
theorem Divides.unique {source : List Char} {ps : List Piece} (h : Divides source ps) :
    ps = pieces source := by
  induction h with
  | nil => rfl
  | cons fits _ ih => rw [fits.pieces_eq, ih]

theorem Divides.lexeme {source : List Char} {ps : List Piece} (h : Divides source ps) {k : Kind}
    {l : Option Literal} {text : List Char} (hp : .token k l text ∈ ps) : Lexeme k l text := by
  induction h with
  | nil => cases hp
  | cons fits _ ih =>
    rcases List.mem_cons.1 hp with rfl | hp
    · cases fits
      assumption
    · exact ih hp

/-- The token is the end mark, or shows a lexeme and holds what the lexeme stands for. -/
def Token.Scanned (t : Token) : Prop :=
  t.kind = .eof ∨ Lexeme t.kind t.literal t.lexeme.toList

theorem scanned_of_mem_scan {source : List Char} {t : Token} (h : t ∈ (scan source).tokens) :
    t.Scanned := by
  rcases List.mem_append.1 h with h | h
  · obtain ⟨⟨p, piece⟩, hm, ht⟩ := List.mem_filterMap.1 h
    cases piece with
    | token k l text =>
      cases ht
      exact Or.inr (by simpa using (divides_pieces source).lexeme (mem_of_mem_located hm))
    | _ => cases ht
  · rw [List.mem_singleton.1 h]
    exact Or.inl rfl

/-- A text is divided into pieces in exactly one way: into lexemes that are each the longest at
their place, blanks, comments up to the end of their line, unexpected characters and perhaps a last
string that is not closed. The tokens are the lexemes in order, with an end mark after them and
nowhere else; the errors are the unexpected characters and the open string, in order. -/
theorem scan_partitions (source : List Char) :
    ∃ ps : List Piece, (∀ qs, Divides source qs ↔ qs = ps) ∧
      (scan source).tokens = (located {} ps).filterMap (fun (p, piece) => piece.token? p) ++
        [Token.endMark (Position.after {} source)] ∧
      (∀ t ∈ (scan source).tokens.dropLast, t.kind ≠ .eof) ∧
      (scan source).errors = (located {} ps).filterMap fun (p, piece) => piece.error? p := by
  refine ⟨pieces source, fun qs => ⟨Divides.unique, ?_⟩, rfl, ?_, rfl⟩
  · rintro rfl
    exact divides_pieces source
  · obtain ⟨body, hbody, hb⟩ := tokens_scan source
    intro t ht
    rw [hbody, List.dropLast_concat] at ht
    exact (hb t ht).2

end Wandika
