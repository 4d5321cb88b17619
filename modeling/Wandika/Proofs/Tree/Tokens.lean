import Wandika.Proofs.Decimal.Bits
import Wandika.Proofs.Parser.Order
import Wandika.Proofs.Token.Partition

/-!
# Tokens and numbers of a tree

A tree keeps the names, the operators and some marks of a text as tokens, and its numbers as values.

* `Expr.tokens`, `Stmt.tokens`, `FunDecl.tokens`: the tokens in a tree;
* `Expr.numbers`, `Stmt.numbers`, `FunDecl.numbers`: the numbers in a tree;
* `Program.FromText.mem_scan`, `Program.FromText.literal_of_mem`: the tokens and the numbers of a
  parsed tree come from the text.
-/

namespace Wandika

mutual

/-- The tokens in an expression. -/
def Expr.tokens : Expr → List Token
  | .assign _ name value => name :: value.tokens
  | .binary op lhs rhs => op :: (lhs.tokens ++ rhs.tokens)
  | .call callee paren args => paren.toList ++ (callee.tokens ++ Expr.tokensAll args)
  | .get object name => name :: object.tokens
  | .group inner => inner.tokens
  | .literal _ => []
  | .logical op lhs rhs => op :: (lhs.tokens ++ rhs.tokens)
  | .set object name value => name :: (object.tokens ++ value.tokens)
  | .ternary cond question yes none => question.toList ++ (cond.tokens ++ yes.tokens)
  | .ternary cond question yes (some no) =>
      question.toList ++ (cond.tokens ++ (yes.tokens ++ no.tokens))
  | .unary op operand => op :: operand.tokens
  | .variable _ name => [name]

/-- The tokens in several expressions. -/
def Expr.tokensAll : List Expr → List Token
  | [] => []
  | e :: es => e.tokens ++ Expr.tokensAll es

end

mutual

/-- The tokens in a statement. -/
def Stmt.tokens : Stmt → List Token
  | .block body => Stmt.tokensAll body
  | .classDecl name methods => name :: FunDecl.tokensAll methods
  | .expr value => value.tokens
  | .function decl => decl.tokens
  | .branch cond yes none => cond.tokens ++ yes.tokens
  | .branch cond yes (some no) => cond.tokens ++ (yes.tokens ++ no.tokens)
  | .print value => value.tokens
  | .ret keyword none => keyword.toList
  | .ret keyword (some value) => keyword.toList ++ value.tokens
  | .varDecl name none => [name]
  | .varDecl name (some init) => name :: init.tokens
  | .loop cond body => cond.tokens ++ body.tokens

/-- The tokens in a function. -/
def FunDecl.tokens : FunDecl → List Token
  | .mk name params body => name :: (params ++ Stmt.tokensAll body)

/-- The tokens in several statements. -/
def Stmt.tokensAll : List Stmt → List Token
  | [] => []
  | s :: ss => s.tokens ++ Stmt.tokensAll ss

/-- The tokens in several functions. -/
def FunDecl.tokensAll : List FunDecl → List Token
  | [] => []
  | f :: fs => f.tokens ++ FunDecl.tokensAll fs

end

mutual

/-- The numbers in an expression. -/
def Expr.numbers : Expr → List Float
  | .assign _ _ value => value.numbers
  | .binary _ lhs rhs => lhs.numbers ++ rhs.numbers
  | .call callee _ args => callee.numbers ++ Expr.numbersAll args
  | .get object _ => object.numbers
  | .group inner => inner.numbers
  | .literal (.number x) => [x]
  | .literal _ => []
  | .logical _ lhs rhs => lhs.numbers ++ rhs.numbers
  | .set object _ value => object.numbers ++ value.numbers
  | .ternary cond _ yes none => cond.numbers ++ yes.numbers
  | .ternary cond _ yes (some no) => cond.numbers ++ (yes.numbers ++ no.numbers)
  | .unary _ operand => operand.numbers
  | .variable _ _ => []

/-- The numbers in several expressions. -/
def Expr.numbersAll : List Expr → List Float
  | [] => []
  | e :: es => e.numbers ++ Expr.numbersAll es

end

mutual

/-- The numbers in a statement. -/
def Stmt.numbers : Stmt → List Float
  | .block body => Stmt.numbersAll body
  | .classDecl _ methods => FunDecl.numbersAll methods
  | .expr value => value.numbers
  | .function decl => decl.numbers
  | .branch cond yes none => cond.numbers ++ yes.numbers
  | .branch cond yes (some no) => cond.numbers ++ (yes.numbers ++ no.numbers)
  | .print value => value.numbers
  | .ret _ none => []
  | .ret _ (some value) => value.numbers
  | .varDecl _ none => []
  | .varDecl _ (some init) => init.numbers
  | .loop cond body => cond.numbers ++ body.numbers

/-- The numbers in a function. -/
def FunDecl.numbers : FunDecl → List Float
  | .mk _ _ body => Stmt.numbersAll body

/-- The numbers in several statements. -/
def Stmt.numbersAll : List Stmt → List Float
  | [] => []
  | s :: ss => s.numbers ++ Stmt.numbersAll ss

/-- The numbers in several functions. -/
def FunDecl.numbersAll : List FunDecl → List Float
  | [] => []
  | f :: fs => f.numbers ++ FunDecl.numbersAll fs

end

/-! ### Tokens of changed trees -/

section Relabel

variable (ρ : Relabel)

mutual

theorem Expr.tokens_relabel : ∀ e : Expr, (e.relabel ρ).tokens = e.tokens.map ρ.token
  | .assign _ name value => by simp [Expr.relabel, Expr.tokens, Expr.tokens_relabel value]
  | .binary _ lhs rhs | .logical _ lhs rhs => by
      simp [Expr.relabel, Expr.tokens, Expr.tokens_relabel lhs, Expr.tokens_relabel rhs]
  | .call callee _ args => by
      simp [Expr.relabel, Expr.tokens, Expr.tokens_relabel callee, Expr.tokensAll_relabelAll args,
        Option.toList_map]
  | .get object name => by simp [Expr.relabel, Expr.tokens, Expr.tokens_relabel object]
  | .group inner => by simp [Expr.relabel, Expr.tokens, Expr.tokens_relabel inner]
  | .literal value => rfl
  | .set object name value => by
      simp [Expr.relabel, Expr.tokens, Expr.tokens_relabel object, Expr.tokens_relabel value]
  | .ternary cond _ yes none => by
      simp [Expr.relabel, Expr.tokens, Expr.tokens_relabel cond, Expr.tokens_relabel yes,
        Option.toList_map]
  | .ternary cond _ yes (some no) => by
      simp [Expr.relabel, Expr.tokens, Expr.tokens_relabel cond, Expr.tokens_relabel yes,
        Expr.tokens_relabel no, Option.toList_map]
  | .unary _ operand => by simp [Expr.relabel, Expr.tokens, Expr.tokens_relabel operand]
  | .variable _ name => rfl

theorem Expr.tokensAll_relabelAll : ∀ es : List Expr,
    Expr.tokensAll (Expr.relabelAll ρ es) = (Expr.tokensAll es).map ρ.token
  | [] => rfl
  | e :: es => by
      simp [Expr.relabelAll, Expr.tokensAll, Expr.tokens_relabel e, Expr.tokensAll_relabelAll es]

end

mutual

theorem Stmt.tokens_relabel : ∀ s : Stmt, (s.relabel ρ).tokens = s.tokens.map ρ.token
  | .block body => by simp [Stmt.relabel, Stmt.tokens, Stmt.tokensAll_relabelAll body]
  | .classDecl name methods => by
      simp [Stmt.relabel, Stmt.tokens, FunDecl.tokensAll_relabelAll methods]
  | .expr value | .print value | .ret _ (some value) | .varDecl _ (some value) => by
      simp [Stmt.relabel, Stmt.tokens, Expr.tokens_relabel, Option.toList_map]
  | .function decl => by simp [Stmt.relabel, Stmt.tokens, FunDecl.tokens_relabel decl]
  | .branch cond yes none => by
      simp [Stmt.relabel, Stmt.tokens, Expr.tokens_relabel, Stmt.tokens_relabel yes]
  | .branch cond yes (some no) => by
      simp [Stmt.relabel, Stmt.tokens, Expr.tokens_relabel, Stmt.tokens_relabel yes,
        Stmt.tokens_relabel no]
  | .ret _ none | .varDecl _ none => by simp [Stmt.relabel, Stmt.tokens, Option.toList_map]
  | .loop cond body => by
      simp [Stmt.relabel, Stmt.tokens, Expr.tokens_relabel, Stmt.tokens_relabel body]

theorem FunDecl.tokens_relabel : ∀ f : FunDecl, (f.relabel ρ).tokens = f.tokens.map ρ.token
  | .mk name params body => by
      simp [FunDecl.relabel, FunDecl.tokens, Stmt.tokensAll_relabelAll body]

theorem Stmt.tokensAll_relabelAll : ∀ ss : List Stmt,
    Stmt.tokensAll (Stmt.relabelAll ρ ss) = (Stmt.tokensAll ss).map ρ.token
  | [] => rfl
  | s :: ss => by
      simp [Stmt.relabelAll, Stmt.tokensAll, Stmt.tokens_relabel s, Stmt.tokensAll_relabelAll ss]

theorem FunDecl.tokensAll_relabelAll : ∀ fs : List FunDecl,
    FunDecl.tokensAll (FunDecl.relabelAll ρ fs) = (FunDecl.tokensAll fs).map ρ.token
  | [] => rfl
  | f :: fs => by
      simp [FunDecl.relabelAll, FunDecl.tokensAll, FunDecl.tokens_relabel f,
        FunDecl.tokensAll_relabelAll fs]

end

end Relabel

/-! ### Numbers are shown by a tree -/

/-- The sign of a number. -/
def Sign.ofNumber (x : Float) : Sign := .number (some (.number x))

mutual

theorem Expr.shows_numbers : ∀ e : Expr, ∀ x ∈ e.numbers, .ofNumber x ∈ e.yield
  | .assign _ _ value => fun x hx => by
      simp [Expr.yield, Expr.shows_numbers value x hx]
  | .binary _ lhs rhs | .logical _ lhs rhs => fun x hx => by
      rcases List.mem_append.1 hx with hx | hx
      · simp [Expr.yield, Expr.shows_numbers lhs x hx]
      · simp [Expr.yield, Expr.shows_numbers rhs x hx]
  | .call callee _ args => fun x hx => by
      rcases List.mem_append.1 hx with hx | hx
      · simp [Expr.yield, Expr.shows_numbers callee x hx]
      · simp [Expr.yield, Expr.shows_numbersAll args x hx]
  | .get object _ => fun x hx => by simp [Expr.yield, Expr.shows_numbers object x hx]
  | .group inner => fun x hx => by simp [Expr.yield, Expr.shows_numbers inner x hx]
  | .literal (.number y) => fun x hx => by
      rw [List.mem_singleton.1 hx]
      exact List.mem_singleton.2 rfl
  | .literal .absent | .literal .nil | .literal (.text _) | .literal (.bool _)
  | .literal (.cls _) | .literal (.object _) => fun x hx => by cases hx
  | .set object _ value => fun x hx => by
      rcases List.mem_append.1 hx with hx | hx
      · simp [Expr.yield, Expr.shows_numbers object x hx]
      · simp [Expr.yield, Expr.shows_numbers value x hx]
  | .ternary cond _ yes none => fun x hx => by
      rcases List.mem_append.1 hx with hx | hx
      · simp [Expr.yield, Expr.shows_numbers cond x hx]
      · simp [Expr.yield, Expr.shows_numbers yes x hx]
  | .ternary cond _ yes (some no) => fun x hx => by
      rcases List.mem_append.1 hx with hx | hx
      · simp [Expr.yield, Expr.shows_numbers cond x hx]
      rcases List.mem_append.1 hx with hx | hx
      · simp [Expr.yield, Expr.shows_numbers yes x hx]
      · simp [Expr.yield, Expr.shows_numbers no x hx]
  | .unary _ operand => fun x hx => by simp [Expr.yield, Expr.shows_numbers operand x hx]
  | .variable _ _ => fun x hx => by cases hx

theorem Expr.shows_numbersAll : ∀ es : List Expr, ∀ x ∈ Expr.numbersAll es,
    .ofNumber x ∈ Expr.yieldAll es
  | [] => fun x hx => by cases hx
  | [e] => fun x hx => by
      simp only [Expr.numbersAll, List.append_nil] at hx
      exact Expr.shows_numbers e x hx
  | e :: e' :: es => fun x hx => by
      have ih := Expr.shows_numbersAll (e' :: es) x
      rw [Expr.yieldAll_cons e (List.cons_ne_nil e' es)]
      rcases List.mem_append.1 hx with hx | hx
      · simp [Expr.shows_numbers e x hx]
      · simp [ih hx]

end

mutual

theorem Stmt.shows_numbers : ∀ s : Stmt, ∀ x ∈ s.numbers, .ofNumber x ∈ s.yield
  | .block body => fun x hx => by simp [Stmt.yield, Stmt.shows_numbersAll body x hx]
  | .classDecl _ methods => fun x hx => by
      simp [Stmt.yield, FunDecl.shows_numbersAll methods x hx]
  | .expr value | .print value | .ret _ (some value) | .varDecl _ (some value) => fun x hx => by
      simp [Stmt.yield, Expr.shows_numbers value x hx]
  | .function decl => fun x hx => by simp [Stmt.yield, FunDecl.shows_numbers decl x hx]
  | .branch cond yes none => fun x hx => by
      rcases List.mem_append.1 hx with hx | hx
      · simp [Stmt.yield, Expr.shows_numbers cond x hx]
      · simp [Stmt.yield, Stmt.shows_numbers yes x hx]
  | .branch cond yes (some no) => fun x hx => by
      rcases List.mem_append.1 hx with hx | hx
      · simp [Stmt.yield, Expr.shows_numbers cond x hx]
      rcases List.mem_append.1 hx with hx | hx
      · simp [Stmt.yield, Stmt.shows_numbers yes x hx]
      · simp [Stmt.yield, Stmt.shows_numbers no x hx]
  | .ret _ none | .varDecl _ none => fun x hx => by cases hx
  | .loop cond body => fun x hx => by
      rcases List.mem_append.1 hx with hx | hx
      · simp [Stmt.yield, Expr.shows_numbers cond x hx]
      · simp [Stmt.yield, Stmt.shows_numbers body x hx]

theorem FunDecl.shows_numbers : ∀ f : FunDecl, ∀ x ∈ f.numbers, .ofNumber x ∈ f.yield
  | .mk _ _ body => fun x hx => by simp [FunDecl.yield, Stmt.shows_numbersAll body x hx]

theorem Stmt.shows_numbersAll : ∀ ss : List Stmt, ∀ x ∈ Stmt.numbersAll ss,
    .ofNumber x ∈ Stmt.yieldAll ss
  | [] => fun x hx => by cases hx
  | s :: ss => fun x hx => by
      rcases List.mem_append.1 hx with hx | hx
      · simp [Stmt.yieldAll, Stmt.shows_numbers s x hx]
      · simp [Stmt.yieldAll, Stmt.shows_numbersAll ss x hx]

theorem FunDecl.shows_numbersAll : ∀ fs : List FunDecl, ∀ x ∈ FunDecl.numbersAll fs,
    .ofNumber x ∈ FunDecl.yieldAll fs
  | [] => fun x hx => by cases hx
  | f :: fs => fun x hx => by
      rcases List.mem_append.1 hx with hx | hx
      · simp [FunDecl.yieldAll, FunDecl.shows_numbers f x hx]
      · simp [FunDecl.yieldAll, FunDecl.shows_numbersAll fs x hx]

end

/-! ### Parsed trees -/

/-- A number is read from its digits. -/
theorem Lexeme.literal_of_number {k : Kind} {l : Option Literal} {text : List Char} {x : Float}
    (h : Lexeme k l text) (hx : l = some (.number x)) : Decimal.Literal x := by
  cases h with
  | symbol | word | string => cases hx
  | whole | decimal =>
    cases hx
    exact ⟨_, _, rfl⟩

namespace Program.FromText

variable {source : List Char} {c c' : Cursor} {p : Program}

/-- A change of tokens that leaves all tokens of the text alone leaves the tree alone. -/
theorem relabelAll_eq (h : p.FromText source c c') {ρ : Relabel} (hoffset : ρ.offset = 0)
    (hρ : ∀ t ∈ (scan source).tokens, ρ.token t = t) :
    Stmt.relabelAll ρ p.stmts = p.stmts := by
  have hprogram := h.program_eq
  by_cases hc : c.rest = []
  · obtain ⟨rest, nextId⟩ := c
    obtain rfl : rest = [] := hc
    cases hprogram
    rfl
  · obtain ⟨c₁, hparse, -⟩ := Parser.program_relabel (ρ := ρ) hprogram (h.rest_ne_nil hc)
    have hsame : c.rest.map ρ.token = c.rest :=
      (List.map_congr_left fun t ht => hρ t (h.left.subset ht)).trans (List.map_id' c.rest)
    rw [hsame, hoffset, Nat.add_zero] at hparse
    obtain ⟨hp, -⟩ := EStateM.Result.ok.inj (hparse.symm.trans hprogram)
    exact congrArg Program.stmts hp

/-- The tokens of the tree are tokens of the text. The change that moves all other tokens would move
them otherwise. -/
theorem mem_scan (h : p.FromText source c c') {t : Token} (ht : t ∈ Stmt.tokensAll p.stmts) :
    t ∈ (scan source).tokens := by
  classical
  let ρ : Relabel :=
    { token := fun t => if t ∈ (scan source).tokens then t else { t with pos := t.pos.next ' ' }
      kind_token := fun t => by split_ifs <;> rfl
      literal_token := fun t => by split_ifs <;> rfl }
  have hfixed : Stmt.relabelAll ρ p.stmts = p.stmts :=
    h.relabelAll_eq rfl fun t ht => if_pos ht
  have hmap := Stmt.tokensAll_relabelAll ρ p.stmts
  rw [hfixed] at hmap
  have hsame : ρ.token t = t := List.map_inj_left.1 (hmap.symm.trans (List.map_id' _).symm) t ht
  by_contra hnot
  have hpos := congrArg (fun t : Token => t.pos.column) ((if_neg hnot).symm.trans hsame)
  simp [Position.next] at hpos

/-- A number of the tree is a literal of the text. -/
theorem literal_of_mem (h : p.FromText source c c') {x : Float}
    (hx : x ∈ Stmt.numbersAll p.stmts) : Decimal.Literal x := by
  obtain ⟨hreads, -⟩ := h.ensures
  obtain ⟨ts, hts, -, hsigns⟩ := hreads.tokens
  have hsign : .ofNumber x ∈ ts.map Token.sign := by
    rw [hsigns]
    exact Stmt.shows_numbersAll p.stmts x hx
  obtain ⟨t, ht, hxt⟩ := List.mem_map.1 hsign
  have hmem : t ∈ (scan source).tokens := h.left.subset (hts ▸ List.mem_append_left _ ht)
  have hkind : t.kind = .number := by
    rw [← Token.kind_sign, hxt]
    rfl
  have hliteral : t.literal = some (.number x) := by
    simpa [Token.sign, hkind, Sign.ofNumber] using hxt
  rcases scanned_of_mem_scan hmem with heof | hlexeme
  · cases hkind.symm.trans heof
  · exact hlexeme.literal_of_number hliteral

end Program.FromText

end Wandika
