import Mathlib.Tactic
import Wandika.Token.Lexer

/-!
# Cutting a text into pieces

* `munch_text`: the longest piece at the front of a text and what is left make up the text;
* `pieces_cons`: the pieces of a text are its first one and the pieces of what is left;
* `Piece.EndsBefore`: the piece is complete, if the text goes on with a separator;
* `munch_append`: a piece that is complete is the same whatever follows the separator;
* `pieces_append`: so a text of complete pieces is cut independently of what follows it.
-/

namespace Wandika

open Wandika.Text (isLetter isDigit isAlphanumeric)

/-! ### The first piece -/

section Munch

variable (c : Char) (cs : List Char)

theorem munchNumber_text : (munchNumber cs).1.text ++ (munchNumber cs).2 = cs := by
  have hcut : cs.takeWhile isDigit ++ cs.dropWhile isDigit = cs := List.takeWhile_append_dropWhile
  unfold munchNumber
  dsimp only
  split
  · rename_i d more hrest
    split_ifs with hd
    · have hfraction : (d :: more).takeWhile isDigit ++ (d :: more).dropWhile isDigit = d :: more :=
        List.takeWhile_append_dropWhile
      rw [hrest] at hcut
      rw [Piece.text, List.append_assoc, List.cons_append, hfraction, hcut]
    · exact hcut
  · exact hcut

theorem munchWord_text : (munchWord cs).1.text ++ (munchWord cs).2 = cs :=
  List.takeWhile_append_dropWhile

theorem munchString_text : (munchString cs).1.text ++ (munchString cs).2 = '"' :: cs := by
  have hcut : cs.takeWhile (· != '"') ++ cs.dropWhile (· != '"') = cs :=
    List.takeWhile_append_dropWhile
  unfold munchString
  dsimp only
  split
  · rename_i hrest
    rw [hrest, List.append_nil] at hcut
    rw [Piece.text, List.append_nil, hcut]
  · rename_i quote rest hrest
    rw [hrest] at hcut
    simp [Piece.text, hcut]

theorem munchComment_text : (munchComment cs).1.text ++ (munchComment cs).2 = '/' :: '/' :: cs := by
  simp [munchComment, Piece.text]

/-- The first piece and what is left make up the text. -/
theorem munch_text : (munch c cs).1.text ++ (munch c cs).2 = c :: cs := by
  unfold munch
  split
  · rfl
  split
  · rename_i hc
    rw [munchString_text, hc]
  split
  · rename_i hc
    split
    · rw [munchComment_text, hc]
    · rfl
  split
  · rfl
  split
  · split <;> rfl
  split
  · exact munchNumber_text _
  split
  · exact munchWord_text _
  · rfl

/-- No piece is empty. -/
theorem munch_ne_nil : (munch c cs).1.text ≠ [] := by
  unfold munch
  split
  · exact List.cons_ne_nil _ _
  split
  · unfold munchString
    dsimp only
    split <;> exact List.cons_ne_nil _ _
  split
  · split <;> exact List.cons_ne_nil _ _
  split
  · exact List.cons_ne_nil _ _
  split
  · split <;> exact List.cons_ne_nil _ _
  split
  · rename_i hd
    have hwhole : (c :: cs).takeWhile isDigit ≠ [] := by simp [hd]
    unfold munchNumber
    dsimp only
    split
    · split_ifs
      · simp [Piece.text]
      · exact hwhole
    · exact hwhole
  split
  · rename_i hl
    simp [munchWord, Piece.text, Text.isAlphanumeric_of_isLetter hl]
  · exact List.cons_ne_nil _ _

/-- Every piece takes at least one character. -/
theorem munch_shorter : (munch c cs).2.length ≤ cs.length := by
  have htext := congrArg List.length (munch_text c cs)
  have hpos := List.length_pos_of_ne_nil (munch_ne_nil c cs)
  simp only [List.length_append, List.length_cons] at htext
  omega

end Munch

/-! ### All pieces -/

theorem piecesUpTo_of_le {n m : Nat} {cs : List Char} (hn : cs.length ≤ n) (hm : cs.length ≤ m) :
    piecesUpTo n cs = piecesUpTo m cs := by
  induction n generalizing m cs with
  | zero =>
    obtain rfl : cs = [] := List.length_eq_zero_iff.1 (Nat.le_zero.1 hn)
    cases m <;> rfl
  | succ n ih =>
    cases cs with
    | nil => cases m <;> rfl
    | cons c cs =>
      obtain ⟨m, rfl⟩ : ∃ k, m = k + 1 := ⟨m - 1, by simp only [List.length_cons] at hm; omega⟩
      have hlt := munch_shorter c cs
      simp only [List.length_cons] at hn hm
      simp only [piecesUpTo]
      rw [ih (by omega) (show (munch c cs).2.length ≤ m by omega)]

@[simp] theorem pieces_nil : pieces [] = [] := rfl

theorem pieces_cons (c : Char) (cs : List Char) :
    pieces (c :: cs) = (munch c cs).1 :: pieces (munch c cs).2 := by
  have hlt := munch_shorter c cs
  simp only [pieces, List.length_cons, piecesUpTo]
  rw [piecesUpTo_of_le hlt (le_refl _)]

theorem text_ne_nil_of_mem_piecesUpTo {n : Nat} {cs : List Char} {piece : Piece}
    (h : piece ∈ piecesUpTo n cs) : piece.text ≠ [] := by
  induction n generalizing cs with
  | zero => cases h
  | succ n ih =>
    cases cs with
    | nil => cases h
    | cons c cs =>
      rcases List.mem_cons.1 h with rfl | h
      · exact munch_ne_nil c cs
      · exact ih h

/-! ### Cutting before a character -/

section Append

variable (p : Char → Bool) {x : Char}

theorem takeWhile_of_all {cs : List Char} (h : ∀ x ∈ cs, p x = true) : cs.takeWhile p = cs := by
  induction cs with
  | nil => rfl
  | cons c cs ih =>
    rw [List.forall_mem_cons] at h
    rw [List.takeWhile_cons_of_pos h.1, ih h.2]

theorem dropWhile_of_all {cs : List Char} (h : ∀ x ∈ cs, p x = true) : cs.dropWhile p = [] := by
  induction cs with
  | nil => rfl
  | cons c cs ih =>
    rw [List.forall_mem_cons] at h
    rw [List.dropWhile_cons_of_pos h.1, ih h.2]

theorem takeWhile_append_stop (hx : p x = false) (cs ds : List Char) :
    (cs ++ x :: ds).takeWhile p = cs.takeWhile p := by
  induction cs with
  | nil => simp [hx]
  | cons c cs ih => by_cases hc : p c = true <;> simp [hc, ih]

theorem dropWhile_append_stop (hx : p x = false) (cs ds : List Char) :
    (cs ++ x :: ds).dropWhile p = cs.dropWhile p ++ x :: ds := by
  induction cs with
  | nil => simp [hx]
  | cons c cs ih => by_cases hc : p c = true <;> simp [hc, ih]

end Append

/-! ### A text and what follows a separator -/

/-- A separator is none of the characters that can be part of a longer token. -/
theorem isSeparator_class {c : Char} (h : isSeparator c = true) :
    isDigit c = false ∧ isLetter c = false ∧ c ≠ '"' ∧ c ≠ '/' ∧ c ≠ '=' ∧ c ≠ '.' := by
  simp only [isSeparator, Bool.or_eq_true, decide_eq_true_eq] at h
  rcases h with ((rfl | rfl) | rfl) | rfl <;> decide

/-- The piece is complete before the character: a string has its closing quote, and a comment goes
on unless the line ends. -/
def Piece.EndsBefore (x : Char) : Piece → Prop
  | .unterminated _ => False
  | .comment _ => x = '\n'
  | _ => True

section Separator

variable {x : Char} (hx : isSeparator x = true) (c : Char) (cs ds : List Char)

include hx

theorem munchNumber_append :
    munchNumber (cs ++ x :: ds) = ((munchNumber cs).1, (munchNumber cs).2 ++ x :: ds) := by
  obtain ⟨hstop, -, -, -, -, hdot⟩ := isSeparator_class hx
  unfold munchNumber
  dsimp only
  rw [takeWhile_append_stop isDigit hstop, dropWhile_append_stop isDigit hstop]
  cases cs.dropWhile isDigit with
  | nil => simp [hdot]
  | cons e rest =>
    by_cases he : e = '.'
    · subst he
      cases rest with
      | nil => simp [hstop]
      | cons d more =>
        by_cases hd : isDigit d = true
        · simp only [List.cons_append, hd, if_true, List.takeWhile_cons_of_pos,
            List.dropWhile_cons_of_pos, takeWhile_append_stop isDigit hstop,
            dropWhile_append_stop isDigit hstop]
        · simp [hd]
    · simp [he]

theorem munchWord_append :
    munchWord (cs ++ x :: ds) = ((munchWord cs).1, (munchWord cs).2 ++ x :: ds) := by
  obtain ⟨hdigit, hletter, -⟩ := isSeparator_class hx
  have hstop : isAlphanumeric x = false := by simp [isAlphanumeric, hdigit, hletter]
  simp only [munchWord, takeWhile_append_stop isAlphanumeric hstop,
    dropWhile_append_stop isAlphanumeric hstop]

omit hx

theorem munchComment_append :
    munchComment (cs ++ '\n' :: ds) = ((munchComment cs).1, (munchComment cs).2 ++ '\n' :: ds) := by
  rw [munchComment, takeWhile_append_stop (· != '\n') rfl, dropWhile_append_stop (· != '\n') rfl]
  rfl

variable {cs}

theorem munchString_append (h : (munchString cs).1.EndsBefore x) :
    munchString (cs ++ ds) = ((munchString cs).1, (munchString cs).2 ++ ds) := by
  have hcut : cs.takeWhile (· != '"') ++ cs.dropWhile (· != '"') = cs :=
    List.takeWhile_append_dropWhile
  cases hrest : cs.dropWhile (· != '"') with
  | nil =>
    simp only [munchString, hrest] at h
    cases h
  | cons quote rest =>
    -- the closing quote stops both cuts before the text that was added
    have hquote : (fun x : Char => x != '"') quote = false := by
      have := List.head?_dropWhile_not (· != '"') cs
      rw [hrest] at this
      exact this
    have hbody : ∀ x ∈ cs.takeWhile (· != '"'), (fun x : Char => x != '"') x = true :=
      List.all_eq_true.1 List.all_takeWhile
    have hcs : cs ++ ds = cs.takeWhile (· != '"') ++ quote :: (rest ++ ds) := by
      conv_lhs => rw [← hcut, hrest]
      simp
    have htake : (cs ++ ds).takeWhile (· != '"') = cs.takeWhile (· != '"') := by
      rw [hcs, List.takeWhile_append_of_pos hbody,
        List.takeWhile_cons_of_neg (by simpa using hquote)]
      exact List.append_nil _
    have hdrop : (cs ++ ds).dropWhile (· != '"') = quote :: (rest ++ ds) := by
      rw [hcs, List.dropWhile_append_of_pos hbody,
        List.dropWhile_cons_of_neg (by simpa using hquote)]
    simp only [munchString, htake, hdrop, hrest]

include hx

/-- A piece that is complete stays the same if a separator and more follow the text. -/
theorem munch_append (h : (munch c cs).1.EndsBefore x) :
    munch c (cs ++ x :: ds) = ((munch c cs).1, (munch c cs).2 ++ x :: ds) := by
  obtain ⟨-, -, -, hxslash, hxequal, -⟩ := isSeparator_class hx
  unfold munch at h ⊢
  by_cases hsep : isSeparator c = true
  · simp only [hsep, if_true]
  rw [if_neg hsep] at h ⊢
  rw [if_neg hsep]
  by_cases hq : c = '"'
  · simp only [hq, if_true] at h ⊢
    exact munchString_append _ h
  rw [if_neg hq] at h ⊢
  rw [if_neg hq]
  by_cases hslash : c = '/'
  · simp only [hslash, if_true] at h ⊢
    cases cs with
    | nil => simp [hxslash]
    | cons d rest =>
      by_cases hd : d = '/'
      · subst hd
        -- only the end of the line ends a comment
        obtain rfl : x = '\n' := h
        exact munchComment_append rest ds
      · simp [hd]
  rw [if_neg hslash, if_neg hslash]
  cases Kind.ofMark? c with
  | some k => rfl
  | none =>
    dsimp only
    cases Kind.ofRelation? c with
    | some ks =>
      obtain ⟨alone, joined⟩ := ks
      dsimp only
      cases cs with
      | nil => simp [hxequal]
      | cons d rest => by_cases hd : d = '=' <;> simp [hd]
    | none =>
      dsimp only
      split_ifs
      · exact munchNumber_append hx (c :: cs) ds
      · exact munchWord_append hx (c :: cs) ds
      · rfl

/-- A text of complete pieces is cut the same way if a separator and more follow. -/
theorem pieces_append (h : ∀ piece ∈ pieces cs, piece.EndsBefore x) :
    pieces (cs ++ x :: ds) = pieces cs ++ .blank x :: pieces ds := by
  -- the length bounds what is left after each piece
  induction hn : cs.length using Nat.strong_induction_on generalizing cs with
  | _ n ih =>
    cases cs with
    | nil =>
      have hblank : munch x ds = (.blank x, ds) := by simp [munch, hx]
      rw [List.nil_append, pieces_cons, hblank]
      rfl
    | cons c cs =>
      rw [pieces_cons, List.forall_mem_cons] at h
      have hlt := munch_shorter c cs
      simp only [List.length_cons] at hn
      have hrest := ih _ (by omega) h.2 rfl
      rw [List.cons_append, pieces_cons, munch_append hx c ds h.1, pieces_cons, hrest]
      rfl

end Separator

end Wandika
