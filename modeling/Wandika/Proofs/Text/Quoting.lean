import Mathlib.Tactic
import Wandika.Text.Quoted

/-!
# Quoted texts can be read back

* `hex_inj`: hexadecimal digits of a fixed width tell numbers apart;
* `quoteChar_append_inj`: the written characters form a prefix code;
* `quote_append_inj`: where a quoted text ends and what it says can be read off from what follows;
* `newline_notMem_quote`: a quoted text stands on one line.
-/

namespace Wandika.Text

/-! ### Hexadecimal digits -/

theorem digitChar_inj : ∀ a < 16, ∀ b < 16, Nat.digitChar a = Nat.digitChar b → a = b := by decide

theorem hex_succ {width : Nat} (hw : 0 < width) (n : Nat) :
    hex (width + 1) n = hex width (n / 16) ++ [Nat.digitChar (n % 16)] := by
  unfold hex
  dsimp only
  by_cases hn : n < 16
  · rw [Nat.toDigits_of_lt_base hn, Nat.div_eq_of_lt hn, Nat.mod_eq_of_lt hn, Nat.toDigits_zero]
    obtain ⟨w, rfl⟩ : ∃ w, width = w + 1 := ⟨width - 1, by omega⟩
    simp [List.replicate_succ']
  · rw [Nat.toDigits_of_base_le (by decide) (Nat.not_lt.1 hn)]
    simp

theorem length_hex {width n : Nat} (hw : 0 < width) (hn : n < 16 ^ width) :
    (hex width n).length = width := by
  have hle := (Nat.length_toDigits_le_iff (by decide) hw).2 hn
  simp only [hex, List.length_append, List.length_replicate]
  omega

/-- Digits of a fixed width tell numbers apart. -/
theorem hex_inj {width : Nat} (hw : 0 < width) {n m : Nat} (hn : n < 16 ^ width)
    (hm : m < 16 ^ width) (h : hex width n = hex width m) : n = m := by
  induction width, hw using Nat.le_induction generalizing n m with
  | base =>
    have hn : n < 16 := by simpa using hn
    have hm : m < 16 := by simpa using hm
    refine digitChar_inj n hn m hm ?_
    simpa [hex, Nat.toDigits_of_lt_base hn, Nat.toDigits_of_lt_base hm] using h
  | succ width hw ih =>
    rw [hex_succ hw, hex_succ hw] at h
    obtain ⟨hdiv, hlast⟩ := List.append_inj' h rfl
    have hq := ih (Nat.div_lt_of_lt_mul (by rwa [pow_succ, Nat.mul_comm] at hn))
      (Nat.div_lt_of_lt_mul (by rwa [pow_succ, Nat.mul_comm] at hm)) hdiv
    have hr := digitChar_inj (n % 16) (Nat.mod_lt n (by decide)) (m % 16)
      (Nat.mod_lt m (by decide)) (List.cons.inj hlast).1
    omega

theorem newline_notMem_hex {width : Nat} (hw : 0 < width) {n : Nat} (hn : n < 16 ^ width) :
    '\n' ∉ hex width n := by
  have hdigit : ∀ d < 16, '\n' ≠ Nat.digitChar d := by decide
  induction width, hw using Nat.le_induction generalizing n with
  | base =>
    have hn : n < 16 := by simpa using hn
    simp [hex, Nat.toDigits_of_lt_base hn, hdigit n hn]
  | succ width hw ih =>
    rw [hex_succ hw, List.mem_append, List.mem_singleton]
    rintro (h | h)
    · exact ih (Nat.div_lt_of_lt_mul (by rwa [pow_succ, Nat.mul_comm] at hn)) h
    · exact hdigit _ (Nat.mod_lt n (by decide)) h

/-! ### Single characters -/

theorem shortEscape?_inj {c d letter : Char} (hc : shortEscape? c = some letter)
    (hd : shortEscape? d = some letter) : c = d := by
  refine Char.toNat_inj.1 ?_
  unfold shortEscape? at hc hd
  split at hc <;> cases hc <;> split at hd <;> simp_all

theorem shortEscape?_ne_none {c : Char} (hc : c ∈ ['\n', '"', '\\']) : shortEscape? c ≠ none := by
  simp only [List.mem_cons, List.not_mem_nil, or_false] at hc
  rcases hc with rfl | rfl | rfl <;> decide

/-- The marks of the hexadecimal escapes, with the number of digits that follow them. -/
def hexEscapes : List (Char × Nat) := [('x', 2), ('u', 4), ('U', 8)]

theorem shortEscape?_ne_mark {c mark : Char} {width : Nat} (h : (mark, width) ∈ hexEscapes) :
    shortEscape? c ≠ some mark := by
  intro hc
  have hmark : mark ∈ ['x', 'u', 'U'] := List.mem_map_of_mem (f := Prod.fst) h
  unfold shortEscape? at hc
  split at hc <;> cases hc <;> revert hmark <;> decide

theorem hexEscapes_width :
    ∀ e ∈ hexEscapes, 0 < e.2 ∧ ∀ e' ∈ hexEscapes, e.1 = e'.1 → e.2 = e'.2 := by decide

/-- The ways in which a character can be written. -/
inductive Written (c : Char) : List Char → Prop
  | short {letter : Char} (escape : shortEscape? c = some letter) : Written c ['\\', letter]
  | plain (escape : shortEscape? c = none) : Written c [c]
  | hex {mark : Char} {width : Nat} (mem : (mark, width) ∈ hexEscapes)
      (lt : c.toNat < 16 ^ width) : Written c ('\\' :: mark :: hex width c.toNat)

theorem written_quoteChar (c : Char) : Written c (quoteChar c) := by
  have hlt : c.toNat < 0x110000 := by
    have := c.valid
    unfold UInt32.isValidChar Nat.isValidChar at this
    simp only [Char.toNat]
    omega
  unfold quoteChar
  split
  · exact .short ‹_›
  · split_ifs with hprint hascii hplane
    · exact .plain ‹_›
    · exact .hex (by decide) (by omega)
    · exact .hex (by decide) (by omega)
    · exact .hex (by decide) (by omega)

/-- No written character begins another one, so each can be read off what stands at the front. -/
theorem quoteChar_append_inj {c d : Char} {r r' : List Char}
    (h : quoteChar c ++ r = quoteChar d ++ r') : c = d ∧ r = r' := by
  have hplain : shortEscape? '\\' ≠ none := shortEscape?_ne_none (by decide)
  have hc := written_quoteChar c
  have hd := written_quoteChar d
  revert h
  generalize quoteChar c = cs at hc ⊢
  generalize quoteChar d = ds at hd ⊢
  intro h
  -- a backslash is never plain, and no short escape uses the mark of a hexadecimal one
  cases hc with
  | short hc =>
    cases hd with
    | short hd =>
      obtain ⟨rfl, rfl⟩ : _ ∧ r = r' := by simpa using h
      exact ⟨shortEscape?_inj hc hd, rfl⟩
    | plain hd =>
      cases h
      exact absurd hd hplain
    | hex hmem hlt =>
      obtain ⟨rfl, -⟩ : _ ∧ _ := by simpa using h
      exact absurd hc (shortEscape?_ne_mark hmem)
  | plain hc =>
    cases hd with
    | short hd =>
      cases h
      exact absurd hc hplain
    | plain hd => simpa using h
    | hex hmem hlt =>
      cases h
      exact absurd hc hplain
  | hex hmem hlt =>
    cases hd with
    | short hd =>
      obtain ⟨rfl, -⟩ : _ ∧ _ := by simpa using h
      exact absurd hd (shortEscape?_ne_mark hmem)
    | plain hd =>
      cases h
      exact absurd hd hplain
    | hex hmem' hlt' =>
      obtain ⟨rfl, hrest⟩ : _ ∧ _ := by simpa using h
      obtain ⟨hw, hsame⟩ := hexEscapes_width _ hmem
      obtain rfl := hsame _ hmem' rfl
      obtain ⟨hcode, rfl⟩ := List.append_inj hrest (by rw [length_hex hw hlt, length_hex hw hlt'])
      exact ⟨Char.toNat_inj.1 (hex_inj hw hlt hlt' hcode), rfl⟩

theorem quoteChar_append_ne_quote (c : Char) (r r' : List Char) : quoteChar c ++ r ≠ '"' :: r' := by
  have hc := written_quoteChar c
  generalize quoteChar c = cs at hc ⊢
  intro h
  cases hc with
  | short | hex => cases h
  | plain hc =>
    cases h
    exact shortEscape?_ne_none (by decide) hc

theorem newline_notMem_quoteChar (c : Char) : '\n' ∉ quoteChar c := by
  have hc := written_quoteChar c
  generalize quoteChar c = cs at hc ⊢
  intro h
  cases hc with
  | short hc =>
    obtain rfl : '\n' = _ := by simpa using h
    unfold shortEscape? at hc
    split at hc <;> cases hc
  | plain hc =>
    obtain rfl := List.mem_singleton.1 h
    exact shortEscape?_ne_none (by decide) hc
  | hex hmem hlt =>
    have hmark : ∀ e ∈ hexEscapes, '\n' ≠ e.1 := by decide
    rcases List.mem_cons.1 h with h | h
    · cases h
    rcases List.mem_cons.1 h with h | h
    · exact hmark _ hmem h
    · exact newline_notMem_hex (hexEscapes_width _ hmem).1 hlt h

/-! ### Texts -/

theorem flatMap_quoteChar_inj {cs ds r r' : List Char}
    (h : cs.flatMap quoteChar ++ '"' :: r = ds.flatMap quoteChar ++ '"' :: r') :
    cs = ds ∧ r = r' := by
  induction cs generalizing ds with
  | nil =>
    cases ds with
    | nil => simpa using h
    | cons d ds =>
      rw [List.flatMap_cons, List.append_assoc] at h
      exact absurd h.symm (quoteChar_append_ne_quote d _ _)
  | cons c cs ih =>
    cases ds with
    | nil =>
      rw [List.flatMap_cons, List.append_assoc] at h
      exact absurd h (quoteChar_append_ne_quote c _ _)
    | cons d ds =>
      rw [List.flatMap_cons, List.flatMap_cons, List.append_assoc, List.append_assoc] at h
      obtain ⟨rfl, hrest⟩ := quoteChar_append_inj h
      obtain ⟨rfl, rfl⟩ := ih hrest
      exact ⟨rfl, rfl⟩

theorem toList_quote (s : String) :
    (quote s).toList = '"' :: (s.toList.flatMap quoteChar ++ ['"']) :=
  String.toList_ofList

/-- A quoted text and what follows it can be told apart. -/
theorem quote_append_inj {s t : String} {r r' : List Char}
    (h : (quote s).toList ++ r = (quote t).toList ++ r') : s = t ∧ r = r' := by
  have h : s.toList.flatMap quoteChar ++ '"' :: r = t.toList.flatMap quoteChar ++ '"' :: r' := by
    simpa [toList_quote] using h
  obtain ⟨hst, rfl⟩ := flatMap_quoteChar_inj h
  exact ⟨String.toList_inj.1 hst, rfl⟩

/-- A quoted text stands on one line. -/
theorem newline_notMem_quote (s : String) : '\n' ∉ (quote s).toList := by
  simp [toList_quote, newline_notMem_quoteChar]

end Wandika.Text
