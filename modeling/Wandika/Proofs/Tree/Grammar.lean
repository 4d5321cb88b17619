import Wandika.Proofs.Tree.Shape

/-!
# The grammar

The grammar of programs in extended Backus–Naur form, over kinds of tokens, and what is derivable
from it. The only addition to the usual operators is a repetition with a limit, which bounds lists
of parameters and of arguments.

* `Grammar.Rule`, `Grammar.Form`, `Grammar.Rule.body`: the rules and their right-hand sides;
* `Grammar.Derives`: the words of a form;
* `derives_level`, `derives_call`: the words of the rules that repeat, as lists of words;
* `begins_expr`, `begins_call`: what words begin with.
-/

namespace Wandika.Grammar

/-- The names of the rules. -/
inductive Rule
  | program | declaration | varDecl | statement | block | classDecl | funcDecl | function | params
  | ifStmt | whileStmt | printStmt | returnStmt | exprStmt
  | expr | assignment | ternary | logicOr | logicAnd | equality | comparison | term | factor
  | unary | call | args | primary
  deriving DecidableEq

/-- Right-hand sides of rules. -/
inductive Form
  | tok (k : Kind)
  | rule (r : Rule)
  | seq (a b : Form)
  | alt (a b : Form)
  | opt (a : Form)
  | many (a : Form)
  | upTo (n : Nat) (a : Form)

instance : Append Form := ⟨Form.seq⟩

instance : OrOp Form := ⟨Form.alt⟩

open Form

/-- The right-hand side of each rule. -/
def Rule.body : Rule → Form
  | .program => many (rule declaration) ++ tok .eof
  | .declaration => rule varDecl ||| rule statement
  | .varDecl =>
      tok .varWord ++ tok .identifier ++ opt (tok .equal ++ rule expr) ++ tok .semicolon
  | .statement =>
      rule printStmt ||| rule ifStmt ||| rule whileStmt ||| rule funcDecl ||| rule classDecl
        ||| rule returnStmt ||| rule block ||| rule exprStmt
  | .block => tok .leftBrace ++ many (rule declaration) ++ tok .rightBrace
  | .classDecl =>
      tok .classWord ++ tok .identifier ++ tok .leftBrace ++ many (rule function)
        ++ tok .rightBrace
  | .funcDecl => tok .funcWord ++ rule function
  | .function =>
      tok .identifier ++ tok .leftParen ++ opt (rule params) ++ tok .rightParen ++ rule block
  | .params => tok .identifier ++ upTo 254 (tok .comma ++ tok .identifier)
  | .ifStmt =>
      tok .ifWord ++ tok .leftParen ++ rule expr ++ tok .rightParen ++ rule statement
        ++ opt (tok .elseWord ++ rule statement)
  | .whileStmt =>
      tok .whileWord ++ tok .leftParen ++ rule expr ++ tok .rightParen ++ rule statement
  | .printStmt => tok .printWord ++ rule expr ++ tok .semicolon
  | .returnStmt => tok .returnWord ++ opt (rule expr) ++ tok .semicolon
  | .exprStmt => rule expr ++ tok .semicolon
  | .expr => rule assignment
  | .assignment =>
      opt (rule call ++ tok .dot) ++ tok .identifier ++ tok .equal ++ rule assignment
        ||| rule ternary
  | .ternary =>
      rule logicOr ++ opt (tok .question ++ rule expr ++ opt (tok .colon ++ rule expr))
  | .logicOr => rule logicAnd ++ many (tok .orWord ++ rule logicAnd)
  | .logicAnd => rule equality ++ many (tok .andWord ++ rule equality)
  | .equality =>
      rule comparison ++ many ((tok .equalEqual ||| tok .bangEqual) ++ rule comparison)
  | .comparison =>
      rule term ++ many ((tok .greater ||| tok .greaterEqual ||| tok .less ||| tok .lessEqual)
        ++ rule term)
  | .term => rule factor ++ many ((tok .plus ||| tok .minus) ++ rule factor)
  | .factor =>
      rule unary ++ many ((tok .star ||| tok .slash ||| tok .percent ||| tok .caret) ++ rule unary)
  | .unary => (tok .bang ||| tok .minus) ++ rule unary ||| rule call
  | .call =>
      rule primary ++ many (tok .leftParen ++ opt (rule args) ++ tok .rightParen
        ||| tok .dot ++ tok .identifier)
  | .args => rule expr ++ upTo 254 (tok .comma ++ rule expr)
  | .primary =>
      tok .number ||| tok .string ||| tok .falseWord ||| tok .trueWord ||| tok .nilWord
        ||| tok .identifier ||| tok .leftParen ++ rule expr ++ tok .rightParen

/-- The words of a form. -/
inductive Derives : Form → List Kind → Prop
  | tok (k : Kind) : Derives (.tok k) [k]
  | rule {r : Rule} {w : List Kind} : Derives r.body w → Derives (.rule r) w
  | seq {a b : Form} {u v : List Kind} : Derives a u → Derives b v → Derives (.seq a b) (u ++ v)
  | left {a b : Form} {w : List Kind} : Derives a w → Derives (.alt a b) w
  | right {a b : Form} {w : List Kind} : Derives b w → Derives (.alt a b) w
  | absent {a : Form} : Derives (.opt a) []
  | present {a : Form} {w : List Kind} : Derives a w → Derives (.opt a) w
  | stop {a : Form} : Derives (.many a) []
  | more {a : Form} {u v : List Kind} :
      Derives a u → Derives (.many a) v → Derives (.many a) (u ++ v)
  | stopUpTo {n : Nat} {a : Form} : Derives (.upTo n a) []
  | moreUpTo {n : Nat} {a : Form} {u v : List Kind} :
      Derives a u → Derives (.upTo n a) v → Derives (.upTo (n + 1) a) (u ++ v)

/-! ### The words of each form -/

section Forms

variable {a b : Form} {w : List Kind}

@[simp] theorem derives_tok {k : Kind} : Derives (.tok k) w ↔ w = [k] := by
  constructor
  · rintro ⟨⟩; rfl
  · rintro rfl; exact .tok k

theorem derives_rule {r : Rule} : Derives (.rule r) w ↔ Derives r.body w := by
  constructor
  · rintro ⟨⟩; assumption
  · exact .rule

@[simp] theorem derives_seq :
    Derives (a ++ b) w ↔ ∃ u v, w = u ++ v ∧ Derives a u ∧ Derives b v := by
  constructor
  · intro h
    cases h with
    | seq hu hv => exact ⟨_, _, rfl, hu, hv⟩
  · rintro ⟨u, v, rfl, hu, hv⟩
    exact .seq hu hv

@[simp] theorem derives_alt : Derives (a ||| b) w ↔ Derives a w ∨ Derives b w := by
  constructor
  · intro h
    cases h with
    | left h => exact Or.inl h
    | right h => exact Or.inr h
  · rintro (h | h)
    · exact .left h
    · exact .right h

@[simp] theorem derives_opt : Derives (.opt a) w ↔ w = [] ∨ Derives a w := by
  constructor
  · intro h
    cases h with
    | absent => exact Or.inl rfl
    | present h => exact Or.inr h
  · rintro (rfl | h)
    · exact .absent
    · exact .present h

@[simp] theorem derives_many :
    Derives (.many a) w ↔
      ∃ us : List (List Kind), (∀ u ∈ us, Derives a u) ∧ w = us.flatten := by
  constructor
  · intro h
    generalize hf : Form.many a = f at h
    induction h with
    | stop => exact ⟨[], by simp, rfl⟩
    | more hu _ _ ih =>
      cases hf
      obtain ⟨us, hus, rfl⟩ := ih rfl
      exact ⟨_ :: us, by simpa using ⟨hu, hus⟩, rfl⟩
    | _ => cases hf
  · rintro ⟨us, hus, rfl⟩
    induction us with
    | nil => exact .stop
    | cons u us ih =>
      simp only [List.forall_mem_cons] at hus
      exact .more hus.1 (ih hus.2)

@[simp] theorem derives_upTo {n : Nat} :
    Derives (.upTo n a) w ↔
      ∃ us : List (List Kind), us.length ≤ n ∧ (∀ u ∈ us, Derives a u) ∧ w = us.flatten := by
  constructor
  · intro h
    generalize hf : Form.upTo n a = f at h
    induction h generalizing n with
    | stopUpTo => exact ⟨[], by simp, by simp, rfl⟩
    | moreUpTo hu _ _ ih =>
      cases hf
      obtain ⟨us, hn, hus, rfl⟩ := ih rfl
      exact ⟨_ :: us, by simpa using hn, by simpa using ⟨hu, hus⟩, rfl⟩
    | _ => cases hf
  · rintro ⟨us, hn, hus, rfl⟩
    induction us generalizing n with
    | nil => exact .stopUpTo
    | cons u us ih =>
      simp only [List.forall_mem_cons] at hus
      obtain ⟨m, rfl⟩ : ∃ m, n = m + 1 := ⟨n - 1, by simp at hn; omega⟩
      exact .moreUpTo hus.1 (ih (by simpa using hn) hus.2)

end Forms

/-! ### Levels -/

/-- The rule for expressions that bind at least as tightly as a rank. -/
def Rule.ofRank : Nat → Rule
  | 0 => .expr
  | 1 => .logicOr
  | 2 => .logicAnd
  | 3 => .equality
  | 4 => .comparison
  | 5 => .term
  | 6 => .factor
  | 7 => .unary
  | _ => .call

/-- A word of an operator followed by an operand. -/
def Link (ks : List Kind) (a : Form) (x : List Kind) : Prop :=
  ∃ k ∈ ks, ∃ v, x = k :: v ∧ Derives a v

theorem derives_chain {a op : Form} {ks : List Kind}
    (hop : ∀ w, Derives op w ↔ ∃ k ∈ ks, w = [k]) {w : List Kind} :
    Derives (a ++ many (op ++ a)) w ↔
      ∃ (u : List Kind) (us : List (List Kind)),
        Derives a u ∧ (∀ x ∈ us, Link ks a x) ∧ w = u ++ us.flatten := by
  have link : ∀ x, Derives (op ++ a) x ↔ Link ks a x := by
    intro x
    rw [derives_seq]
    constructor
    · rintro ⟨o, v, rfl, ho, hv⟩
      obtain ⟨k, hk, rfl⟩ := (hop o).1 ho
      exact ⟨k, hk, v, rfl, hv⟩
    · rintro ⟨k, hk, v, rfl, hv⟩
      exact ⟨[k], v, rfl, (hop _).2 ⟨k, hk, rfl⟩, hv⟩
  rw [derives_seq]
  constructor
  · rintro ⟨u, v, rfl, hu, hv⟩
    obtain ⟨us, hus, rfl⟩ := derives_many.1 hv
    exact ⟨u, us, hu, fun x hx => (link x).1 (hus x hx), rfl⟩
  · rintro ⟨u, us, hu, hus, rfl⟩
    exact ⟨u, us.flatten, rfl, hu, derives_many.2 ⟨us, fun x hx => (link x).2 (hus x hx), rfl⟩⟩

/-- A level is a chain: operands of the next tighter rank with operators of the level between
them. -/
theorem derives_level {l : Level} {w : List Kind} :
    Derives (rule (Rule.ofRank l.rank)) w ↔
      ∃ (u : List Kind) (us : List (List Kind)), Derives (rule (Rule.ofRank (l.rank + 1))) u ∧
        (∀ x ∈ us, Link l.operators (rule (Rule.ofRank (l.rank + 1))) x) ∧ w = u ++ us.flatten := by
  rw [derives_rule]
  cases l <;> refine derives_chain fun w => ?_ <;>
    simp only [derives_alt, derives_tok, Level.operators, List.mem_cons, List.not_mem_nil,
      or_false, exists_eq_or_imp, exists_eq_left] <;> tauto

/-- What binds more tightly may stand wherever looser expressions may. -/
theorem derives_ofRank_pred {m : Nat} {w : List Kind} (h : Derives (rule (Rule.ofRank (m + 1))) w) :
    Derives (rule (Rule.ofRank m)) w := by
  have chain : ∀ l : Level, l.rank = m → Derives (rule (Rule.ofRank m)) w := by
    rintro l rfl
    exact derives_level.2 ⟨w, [], h, by simp, by simp⟩
  match m, h, chain with
  | 0, h, _ =>
    refine .rule (.rule (.right (.rule ?_)))
    exact derives_seq.2 ⟨w, [], by simp, h, .absent⟩
  | 1, _, chain => exact chain .or rfl
  | 2, _, chain => exact chain .and rfl
  | 3, _, chain => exact chain .equality rfl
  | 4, _, chain => exact chain .comparison rfl
  | 5, _, chain => exact chain .term rfl
  | 6, _, chain => exact chain .factor rfl
  | 7, h, _ => exact .rule (.right h)
  | _ + 8, h, _ => exact h

theorem derives_ofRank_of_le {m n : Nat} (hmn : m ≤ n) {w : List Kind}
    (h : Derives (rule (Rule.ofRank n)) w) : Derives (rule (Rule.ofRank m)) w := by
  induction hmn with
  | refl => exact h
  | step _ ih => exact ih (derives_ofRank_pred h)

/-- A word of an argument list in parentheses, or of a property name after a point. -/
def Suffix (x : List Kind) : Prop :=
  (∃ v, x = .leftParen :: (v ++ [.rightParen]) ∧ (v = [] ∨ Derives (rule .args) v)) ∨
    x = [.dot, .identifier]

theorem derives_call {w : List Kind} :
    Derives (rule .call) w ↔ ∃ (u : List Kind) (us : List (List Kind)),
      Derives (rule .primary) u ∧ (∀ x ∈ us, Suffix x) ∧ w = u ++ us.flatten := by
  have suffix : ∀ x, Derives (tok .leftParen ++ opt (rule .args) ++ tok .rightParen
      ||| tok .dot ++ tok .identifier) x ↔ Suffix x := by
    intro x
    simp only [derives_alt, derives_seq, derives_tok, derives_opt, Suffix]
    constructor
    · rintro (⟨_, _, rfl, ⟨_, v, rfl, rfl, hv⟩, rfl⟩ | ⟨_, _, rfl, rfl, rfl⟩)
      · exact Or.inl ⟨v, rfl, hv⟩
      · exact Or.inr rfl
    · rintro (⟨v, rfl, hv⟩ | rfl)
      · exact Or.inl ⟨_, _, rfl, ⟨_, v, rfl, rfl, hv⟩, rfl⟩
      · exact Or.inr ⟨_, _, rfl, rfl, rfl⟩
  rw [derives_rule]
  show Derives (rule .primary ++ many _) w ↔ _
  rw [derives_seq]
  constructor
  · rintro ⟨u, v, rfl, hu, hv⟩
    obtain ⟨us, hus, rfl⟩ := derives_many.1 hv
    exact ⟨u, us, hu, fun x hx => (suffix x).1 (hus x hx), rfl⟩
  · rintro ⟨u, us, hu, hus, rfl⟩
    exact ⟨u, us.flatten, rfl, hu, derives_many.2 ⟨us, fun x hx => (suffix x).2 (hus x hx), rfl⟩⟩

/-! ### First tokens -/

/-- The word begins with none of the kinds. -/
def Avoids (ks : List Kind) (v : List Kind) : Prop :=
  ∀ k ∈ ks, v.head? ≠ some k

theorem Avoids.of_head? {ks v : List Kind} {k : Kind} (h : v.head? = some k) (hk : k ∉ ks) :
    Avoids ks v := by
  rintro k' hk' e
  rw [h] at e
  cases e
  exact hk hk'

theorem Avoids.mono {ks ks' v : List Kind} (h : Avoids ks v) (hs : ks' ⊆ ks) : Avoids ks' v :=
  fun k hk => h k (hs hk)

/-- The kinds a primary expression begins with. -/
def primaryStarts : List Kind :=
  [.number, .string, .falseWord, .trueWord, .nilWord, .identifier, .leftParen]

/-- The kinds an expression begins with. -/
def exprStarts : List Kind := .bang :: .minus :: primaryStarts

/-- The word begins with one of the kinds. -/
def Begins (ks : List Kind) (w : List Kind) : Prop :=
  ∃ k ∈ ks, ∃ v, w = k :: v

theorem Begins.append {ks w : List Kind} (h : Begins ks w) (v : List Kind) :
    Begins ks (w ++ v) := by
  obtain ⟨k, hk, u, rfl⟩ := h
  exact ⟨k, hk, u ++ v, rfl⟩

theorem Begins.avoids {ks ks' w : List Kind} (h : Begins ks w) (hd : ∀ k ∈ ks, k ∉ ks') :
    Avoids ks' w := by
  obtain ⟨k, hk, v, rfl⟩ := h
  exact Avoids.of_head? rfl (hd k hk)

theorem begins_tok {ks : List Kind} {k : Kind} (hk : k ∈ ks) :
    ∀ w, Derives (tok k) w → Begins ks w := by
  rintro w ⟨⟩
  exact ⟨k, hk, [], rfl⟩

theorem begins_seq {ks : List Kind} {a b : Form} (ha : ∀ u, Derives a u → Begins ks u) :
    ∀ w, Derives (a ++ b) w → Begins ks w := by
  intro w h
  obtain ⟨u, v, rfl, hu, -⟩ := derives_seq.1 h
  exact (ha u hu).append v

theorem begins_primary {w : List Kind} (h : Derives (rule .primary) w) :
    Begins primaryStarts w := by
  rw [derives_rule] at h
  simp only [Rule.body, derives_alt, derives_seq, derives_tok] at h
  rcases h with (((((rfl | rfl) | rfl) | rfl) | rfl) | rfl) | ⟨_, _, rfl, ⟨_, _, rfl, rfl, _⟩, _⟩
  all_goals exact ⟨_, by simp [primaryStarts], _, rfl⟩

theorem begins_call {w : List Kind} (h : Derives (rule .call) w) : Begins primaryStarts w := by
  obtain ⟨u, us, hu, -, rfl⟩ := derives_call.1 h
  exact (begins_primary hu).append _

theorem begins_unary {w : List Kind} (h : Derives (rule .unary) w) : Begins exprStarts w := by
  rw [derives_rule] at h
  simp only [Rule.body, derives_alt, derives_seq, derives_tok] at h
  rcases h with ⟨_, v, rfl, rfl | rfl, _⟩ | h
  · exact ⟨_, by simp [exprStarts], v, rfl⟩
  · exact ⟨_, by simp [exprStarts], v, rfl⟩
  · obtain ⟨k, hk, v, rfl⟩ := begins_call h
    exact ⟨k, by simp [exprStarts, hk], v, rfl⟩

theorem begins_level {l : Level} {w : List Kind} (h : Derives (rule (.ofRank l.rank)) w) :
    Begins exprStarts w := by
  have step : ∀ l : Level, (∀ w, Derives (rule (.ofRank (l.rank + 1))) w → Begins exprStarts w) →
      ∀ w, Derives (rule (.ofRank l.rank)) w → Begins exprStarts w := by
    intro l ih w h
    obtain ⟨u, us, hu, -, rfl⟩ := derives_level.1 h
    exact (ih u hu).append _
  have factor := step .factor fun w h => begins_unary h
  have term := step .term factor
  have comparison := step .comparison term
  have equality := step .equality comparison
  have and := step .and equality
  cases l
  · exact step .or and w h
  · exact and w h
  · exact equality w h
  · exact comparison w h
  · exact term w h
  · exact factor w h

theorem begins_expr {w : List Kind} (h : Derives (rule .expr) w) : Begins exprStarts w := by
  rw [derives_rule] at h
  rw [show Rule.expr.body = rule .assignment from rfl, derives_rule] at h
  simp only [Rule.body, derives_alt, derives_seq, derives_tok, derives_opt] at h
  rcases h with ⟨_, _, rfl, ⟨_, _, rfl, ⟨_, _, rfl, rfl | ⟨u, _, rfl, hu, -⟩, rfl⟩, -⟩, -⟩ | h
  · exact ⟨.identifier, by simp [exprStarts, primaryStarts], _, rfl⟩
  · obtain ⟨k, hk, v, rfl⟩ := begins_call hu
    exact ⟨k, by simp [exprStarts, hk], _, rfl⟩
  · rw [derives_rule] at h
    simp only [Rule.body, derives_seq] at h
    obtain ⟨u, v, rfl, hu, -⟩ := h
    exact (begins_level (l := .or) hu).append _

end Wandika.Grammar
