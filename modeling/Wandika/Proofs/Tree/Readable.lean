import Wandika.Proofs.Decimal.Shortest
import Wandika.Proofs.Tree.Forms

/-!
# Forms can be read off their texts

* `isWord`: texts that are neither data nor broken by a blank, a parenthesis or a quote;
* `Form.Proper`: words are such texts, data come from literals, and lists are not empty;
* `Form.text_append_inj`: where a proper form ends and which one it is can be read off its text;
* `Form.newline_notMem_text`: a proper form stands on one line.
-/

namespace Wandika

open Wandika.Text (isDigit)

/-- The characters of words and numbers. -/
def isPlain (c : Char) : Bool := c ∉ [' ', '(', ')', '"', '\n']

/-- What follows a form begins with a blank, a closing parenthesis or a line end. -/
def Stopped (r : List Char) : Prop := ∀ c ∈ r.head?, c ∈ [' ', ')', '\n']

/-- A word: unbroken, and told apart from the data by its first character or as a whole. -/
def isWord (text : String) : Bool :=
  text.toList.all isPlain && text ∉ ["nil", "true", "false", "+Inf"] &&
    text.toList.head?.all (!isDigit ·)

/-- The data that a literal of a text can hold. -/
def Datum.Legible : Datum → Prop
  | .nil | .text _ | .bool _ => True
  | .number x => Decimal.Literal x
  | .absent | .cls _ | .object _ => False

mutual

/-- Words are words, data come from literals, and lists are not empty. -/
def Form.Proper : Form → Prop
  | .word text => isWord text = true
  | .datum d => d.Legible
  | .list parts => parts ≠ [] ∧ Form.ProperAll parts

/-- Several proper forms. -/
def Form.ProperAll : List Form → Prop
  | [] => True
  | f :: fs => f.Proper ∧ Form.ProperAll fs

end

/-! ### Unbroken texts -/

theorem Stopped.not_plain {c : Char} {r : List Char} (h : Stopped (c :: r)) :
    isPlain c = false := by
  have hstop : ∀ c ∈ [' ', ')', '\n'], isPlain c = false := by simp [isPlain]
  exact hstop c (h c rfl)

/-- Unbroken texts end where a blank, a parenthesis or a line end follows. -/
theorem plain_append_inj {cs ds r r' : List Char} (hcs : ∀ c ∈ cs, isPlain c = true)
    (hds : ∀ c ∈ ds, isPlain c = true) (hr : Stopped r) (hr' : Stopped r')
    (h : cs ++ r = ds ++ r') : cs = ds ∧ r = r' := by
  induction cs generalizing ds with
  | nil =>
    cases ds with
    | nil => exact ⟨rfl, h⟩
    | cons d ds =>
      obtain rfl : r = d :: (ds ++ r') := h
      exact absurd (hds d List.mem_cons_self) (by simp [hr.not_plain])
  | cons c cs ih =>
    cases ds with
    | nil =>
      obtain rfl : c :: (cs ++ r) = r' := h
      exact absurd (hcs c List.mem_cons_self) (by simp [hr'.not_plain])
    | cons d ds =>
      rw [List.forall_mem_cons] at hcs hds
      obtain ⟨rfl, hrest⟩ := List.cons.inj h
      obtain ⟨rfl, rfl⟩ := ih hcs.2 hds.2 hrest
      exact ⟨rfl, rfl⟩

/-- An unbroken text is no quoted text and no list, whatever follows. -/
theorem plain_append_ne {cs r r' : List Char} {c : Char} (hcs : ∀ c ∈ cs, isPlain c = true)
    (hr : Stopped r) (hc : c ∈ ['(', '"']) : cs ++ r ≠ c :: r' := by
  have hplain : ∀ c ∈ ['(', '"'], isPlain c = false ∧ c ∉ [' ', ')', '\n'] := by
    simp [isPlain]
  intro h
  cases cs with
  | nil =>
    obtain rfl : r = c :: r' := h
    exact (hplain c hc).2 (hr c rfl)
  | cons d cs =>
    obtain rfl := (List.cons.inj h).1
    exact absurd (hcs d List.mem_cons_self) (by simp [(hplain d hc).1])

/-! ### Data -/

namespace Datum.Legible

theorem isPlain_of_numberText {cs : List Char} (h : Decimal.NumberText cs) :
    ∀ c ∈ cs, isPlain c = true := by
  have hdigit : ∀ c, isDigit c = true → isPlain c = true := by
    intro c hc
    simp only [isPlain, decide_eq_true_eq]
    intro hmem
    have hstop : [' ', '(', ')', '"', '\n'].all (!isDigit ·) = true := by decide
    simpa [hc] using List.all_eq_true.1 hstop c hmem
  obtain ⟨d, rest, rfl, hd, hrest⟩ := h
  rw [List.forall_mem_cons]
  refine ⟨hdigit d hd, fun c hc => ?_⟩
  rcases hrest c hc with hc | rfl
  · exact hdigit c hc
  · rfl

/-- Only texts are quoted. -/
theorem isPlain_of_mem {d : Datum} (h : d.Legible) (ht : ∀ s, d ≠ .text s) :
    ∀ c ∈ d.renderQuoted.toList, isPlain c = true := by
  match d, h with
  | .nil, _ => exact List.all_eq_true.1 (by decide : "nil".toList.all isPlain = true)
  | .bool true, _ => exact List.all_eq_true.1 (by decide : "true".toList.all isPlain = true)
  | .bool false, _ => exact List.all_eq_true.1 (by decide : "false".toList.all isPlain = true)
  | .text s, _ => exact absurd rfl (ht s)
  | .number x, h =>
    show ∀ c ∈ (Decimal.plain.render x).toList, isPlain c = true
    rcases Decimal.Literal.numberText h with hinf | hnumber
    · rw [hinf]
      exact List.all_eq_true.1 (by decide)
    · exact isPlain_of_numberText hnumber

/-- No datum is written as a word. -/
theorem isWord_renderQuoted {d : Datum} (h : d.Legible) : isWord d.renderQuoted = false := by
  match d, h with
  | .nil, _ => exact (by decide : isWord "nil" = false)
  | .bool true, _ => exact (by decide : isWord "true" = false)
  | .bool false, _ => exact (by decide : isWord "false" = false)
  | .text s, _ =>
    simp [isWord, Datum.renderQuoted, Text.toList_quote, isPlain]
  | .number x, h =>
    show isWord (Decimal.plain.render x) = false
    rcases Decimal.Literal.numberText h with hinf | ⟨d, rest, htext, hd, -⟩
    · rw [hinf]
      decide
    · simp [isWord, htext, hd]

theorem eq_number {d : Datum} {x : Float} (hx : Decimal.Literal x) (h : d.Legible)
    (heq : Decimal.plain.render x = d.renderQuoted) : d = .number x := by
  have hhead : ∀ s : String, s ≠ "+Inf" → s.toList.head?.all (!isDigit ·) = true →
      Decimal.plain.render x ≠ s := by
    rintro s hinf hs rfl
    rcases hx.numberText with hinf' | ⟨c, rest, htext, hc, -⟩
    · exact hinf hinf'
    · simp [htext, hc] at hs
  match d, h with
  | .number y, hy => exact congrArg Datum.number (hy.render_inj hx heq.symm)
  | .nil, _ => exact absurd heq (hhead "nil" (by decide) (by decide))
  | .bool true, _ => exact absurd heq (hhead "true" (by decide) (by decide))
  | .bool false, _ => exact absurd heq (hhead "false" (by decide) (by decide))
  | .text t, _ =>
    refine absurd heq (hhead (Text.quote t) (fun h => ?_) (by simp [Text.toList_quote, isDigit]))
    have := congrArg String.toList h
    simp [Text.toList_quote] at this

theorem eq_text {d : Datum} {s : String} (h : d.Legible) (heq : Text.quote s = d.renderQuoted) :
    d = .text s := by
  have hhead : ∀ t : String, t.toList.head? ≠ some '"' → Text.quote s ≠ t := by
    rintro t ht rfl
    exact ht (by simp [Text.toList_quote])
  match d, h with
  | .number x, hx => cases eq_number hx (d := .text s) trivial heq.symm
  | .nil, _ => exact absurd heq (hhead "nil" (by decide))
  | .bool true, _ => exact absurd heq (hhead "true" (by decide))
  | .bool false, _ => exact absurd heq (hhead "false" (by decide))
  | .text t, _ =>
    have hlists := congrArg (fun u : String => u.toList ++ []) heq
    exact congrArg Datum.text (Text.quote_append_inj hlists).1.symm

/-- Different data are written differently. -/
theorem renderQuoted_inj {d d' : Datum} (h : d.Legible) (h' : d'.Legible)
    (heq : d.renderQuoted = d'.renderQuoted) : d = d' := by
  match d, d', h, h' with
  | .number x, _, hx, h' => exact (eq_number hx h' heq).symm
  | _, .number y, h, hy => exact eq_number hy h heq.symm
  | .text s, _, _, h' => exact (eq_text h' heq).symm
  | _, .text t, h, _ => exact eq_text h heq.symm
  | .nil, .nil, _, _ => rfl
  | .bool b, .bool c, _, _ =>
    have hbool : ∀ b c : Bool, (if b then "true" else "false") = (if c then "true" else "false") →
        b = c := by decide
    exact congrArg Datum.bool (hbool b c heq)
  | .nil, .bool b, _, _ =>
    exact absurd heq ((by decide : ∀ b : Bool, "nil" ≠ if b then "true" else "false") b)
  | .bool b, .nil, _, _ =>
    exact absurd heq.symm ((by decide : ∀ b : Bool, "nil" ≠ if b then "true" else "false") b)

end Datum.Legible

/-! ### Unique reading -/

namespace Form

/-- A word or a datum that is not quoted. -/
def Unbroken (f : Form) : Prop := ∀ c ∈ f.text, isPlain c = true

theorem not_unbroken_list (parts : List Form) : ¬ (Form.list parts).Unbroken := fun h =>
  absurd (h '(' (by simp)) (by decide)

theorem Proper.cases {f : Form} (h : f.Proper) :
    f.Unbroken ∨ (∃ s, f = .datum (.text s)) ∨ ∃ parts, f = .list parts := by
  cases f with
  | word text =>
    simp only [Proper, isWord, Bool.and_eq_true] at h
    exact Or.inl (List.all_eq_true.1 h.1.1)
  | datum d =>
    by_cases ht : ∃ s, d = .text s
    · obtain ⟨s, rfl⟩ := ht
      exact Or.inr (Or.inl ⟨s, rfl⟩)
    · push Not at ht
      exact Or.inl (Datum.Legible.isPlain_of_mem h ht)
  | list parts => exact Or.inr (Or.inr ⟨parts, rfl⟩)

/-- Words and data are told apart by their whole text. -/
theorem Unbroken.eq_of_text_eq {f g : Form} (hf : f.Unbroken) (hg : g.Unbroken)
    (hf' : f.Proper) (hg' : g.Proper) (h : f.text = g.text) : f = g := by
  match f, g with
  | .list parts, _ => exact absurd hf (not_unbroken_list parts)
  | _, .list parts => exact absurd hg (not_unbroken_list parts)
  | .word text, .word text' => exact congrArg Form.word (String.toList_inj.1 h)
  | .datum d, .datum d' =>
    exact congrArg Form.datum (Datum.Legible.renderQuoted_inj hf' hg' (String.toList_inj.1 h))
  | .word text, .datum d =>
    have hword : isWord text = true := hf'
    rw [String.toList_inj.1 h, Datum.Legible.isWord_renderQuoted hg'] at hword
    cases hword
  | .datum d, .word text =>
    have hword : isWord text = true := hg'
    rw [← String.toList_inj.1 h, Datum.Legible.isWord_renderQuoted hf'] at hword
    cases hword

theorem text_datum_text (s : String) :
    ∃ cs, (Form.datum (.text s)).text = '"' :: cs :=
  ⟨_, Text.toList_quote s⟩

/-- A form that is no list, and what follows it, can be told apart. -/
theorem text_append_inj_of_atom {f g : Form} {r r' : List Char} (hatom : ∀ parts, f ≠ .list parts)
    (hf : f.Proper) (hg : g.Proper) (hr : Stopped r) (hr' : Stopped r')
    (h : f.text ++ r = g.text ++ r') : f = g ∧ r = r' := by
  rcases hf.cases with hplain | ⟨s, rfl⟩ | ⟨parts, rfl⟩
  · rcases hg.cases with hplain' | ⟨t, rfl⟩ | ⟨parts, rfl⟩
    · obtain ⟨htext, rfl⟩ := plain_append_inj hplain hplain' hr hr' h
      exact ⟨hplain.eq_of_text_eq hplain' hf hg htext, rfl⟩
    · obtain ⟨cs, hcs⟩ := text_datum_text t
      rw [hcs] at h
      exact absurd h (plain_append_ne hplain hr (by decide))
    · exact absurd h (plain_append_ne hplain hr (by decide))
  · obtain ⟨cs, hcs⟩ := text_datum_text s
    rcases hg.cases with hplain' | ⟨t, rfl⟩ | ⟨parts, rfl⟩
    · rw [hcs] at h
      exact absurd h.symm (plain_append_ne hplain' hr' (by decide))
    · obtain ⟨rfl, rfl⟩ := Text.quote_append_inj h
      exact ⟨rfl, rfl⟩
    · rw [hcs] at h
      cases (List.cons.inj h).1
  · exact absurd rfl (hatom parts)

/-- How a list goes on after one of its parts. -/
def rest (r : List Char) : List Form → List Char
  | [] => ')' :: r
  | f :: fs => ' ' :: (f.text ++ rest r fs)

theorem stopped_rest (r : List Char) (fs : List Form) : Stopped (rest r fs) := by
  cases fs <;> simp [Stopped, rest]

theorem text_list_cons (f : Form) (fs : List Form) (r : List Char) :
    (Form.list (f :: fs)).text ++ r = '(' :: (f.text ++ rest r fs) := by
  have hjoin : [' '].intercalate (textAll (f :: fs)) ++ ')' :: r = f.text ++ rest r fs := by
    induction fs generalizing f with
    | nil => simp [rest]
    | cons g fs ih => simpa [rest] using ih g
  simpa using hjoin

mutual

/-- Where a form ends and which one it is can be read off the text. -/
theorem text_append_inj : ∀ {f g : Form} {r r' : List Char}, f.Proper → g.Proper → Stopped r →
    Stopped r' → f.text ++ r = g.text ++ r' → f = g ∧ r = r'
  | .word _, _, _, _, hf, hg, hr, hr', h | .datum _, _, _, _, hf, hg, hr, hr', h =>
      text_append_inj_of_atom (by simp) hf hg hr hr' h
  | .list _, .word _, _, _, hf, hg, hr, hr', h | .list _, .datum _, _, _, hf, hg, hr, hr', h => by
      cases (text_append_inj_of_atom (by simp) hg hf hr' hr h.symm).1
  | .list [], .list _, _, _, hf, _, _, _, _ => absurd rfl hf.1
  | .list _, .list [], _, _, _, hg, _, _, _ => absurd rfl hg.1
  | .list (f :: fs), .list (g :: gs), r, r', hf, hg, _, _, h => by
      -- after a part stands a blank or the closing parenthesis, whatever follows the list
      rw [text_list_cons, text_list_cons] at h
      obtain ⟨rfl, hrest⟩ := text_append_inj hf.2.1 hg.2.1 (stopped_rest r fs) (stopped_rest r' gs)
        (List.cons.inj h).2
      obtain ⟨rfl, rfl⟩ := rest_inj hf.2.2 hg.2.2 hrest
      exact ⟨rfl, rfl⟩

theorem rest_inj : ∀ {fs gs : List Form} {r r' : List Char}, ProperAll fs → ProperAll gs →
    rest r fs = rest r' gs → fs = gs ∧ r = r'
  | [], [], _, _, _, _, h => ⟨rfl, (List.cons.inj h).2⟩
  | [], _ :: _, _, _, _, _, h | _ :: _, [], _, _, _, _, h => by cases (List.cons.inj h).1
  | f :: fs, g :: gs, r, r', hf, hg, h => by
      obtain ⟨rfl, hrest⟩ := text_append_inj hf.1 hg.1 (stopped_rest r fs) (stopped_rest r' gs)
        (List.cons.inj h).2
      obtain ⟨rfl, rfl⟩ := rest_inj hf.2 hg.2 hrest
      exact ⟨rfl, rfl⟩

end

mutual

/-- A proper form stands on one line. -/
theorem newline_notMem_text : ∀ {f : Form}, f.Proper → '\n' ∉ f.text
  | .word _, hf | .datum _, hf => by
      rcases hf.cases with hplain | ⟨s, hs⟩ | ⟨parts, hparts⟩
      · exact fun h => absurd (hplain _ h) (by decide)
      · rw [hs]
        exact Text.newline_notMem_quote s
      · cases hparts
  | .list [], hf => absurd rfl hf.1
  | .list (f :: fs), hf => by
      rw [← List.append_nil (Form.text _), text_list_cons]
      simp [newline_notMem_text hf.2.1, newline_notMem_rest hf.2.2]

theorem newline_notMem_rest : ∀ {fs : List Form}, ProperAll fs → '\n' ∉ rest [] fs
  | [], _ => by simp [rest]
  | f :: fs, hf => by simp [rest, newline_notMem_text hf.1, newline_notMem_rest hf.2]

end

end Form

end Wandika
