import Wandika.Proofs.Parser.Marks
import Wandika.Proofs.Tree.Tokens

/-!
# Trees that can be run

The machine has answers to trees that no text gives: to operators that it does not know, to literals
that hold nothing, and to errors that have no place. The parser gives no such trees.

* `Expr.Sound`, `Stmt.Sound`, `FunDecl.Sound`: the operators are ones that the machine applies, the
  literals hold something, and every token that an error may name is a known one;
* `Stmt.soundAll`: trees of the right shape that keep their marks are of this sort.
-/

namespace Wandika

/-- The token is there and known. -/
def IsKnown (known : Token → Prop) (t? : Option Token) : Prop := ∃ t, t? = some t ∧ known t

/-- The operator is known and belongs to one of the levels. -/
def Token.Operates (known : Token → Prop) (levels : List Level) (op : Token) : Prop :=
  known op ∧ ∃ l ∈ levels, op.kind ∈ l.operators

/-- The levels of the operators that are applied to two values. -/
def Level.binary : List Level := [.equality, .comparison, .term, .factor]

/-- The levels of the operators that look at their left operand first. -/
def Level.logical : List Level := [.or, .and]

section Trees

variable (known : Token → Prop)

mutual

/-- The machine can run the expression. -/
def Expr.Sound : Expr → Prop
  | .assign _ name value => known name ∧ value.Sound
  | .binary op lhs rhs => op.Operates known Level.binary ∧ lhs.Sound ∧ rhs.Sound
  | .call callee paren args => IsKnown known paren ∧ callee.Sound ∧ Expr.SoundAll args
  | .get object name => known name ∧ object.Sound
  | .group inner => inner.Sound
  | .literal value => value.fromText = true
  | .logical op lhs rhs => op.Operates known Level.logical ∧ lhs.Sound ∧ rhs.Sound
  | .set object name value => known name ∧ object.Sound ∧ value.Sound
  | .ternary cond _ yes none => cond.Sound ∧ yes.Sound
  | .ternary cond _ yes (some no) => cond.Sound ∧ yes.Sound ∧ no.Sound
  | .unary op operand => known op ∧ op.kind ∈ [Kind.bang, .minus] ∧ operand.Sound
  | .variable _ name => known name

/-- The machine can run the expressions. -/
def Expr.SoundAll : List Expr → Prop
  | [] => True
  | e :: es => e.Sound ∧ Expr.SoundAll es

end

mutual

/-- The machine can run the statement. The methods of a class are never run. -/
def Stmt.Sound : Stmt → Prop
  | .block body => Stmt.SoundAll body
  | .classDecl _ _ => True
  | .expr value => value.Sound known
  | .function decl => decl.Sound
  | .branch cond yes none => cond.Sound known ∧ yes.Sound
  | .branch cond yes (some no) => cond.Sound known ∧ yes.Sound ∧ no.Sound
  | .print value => value.Sound known
  | .ret _ none => True
  | .ret _ (some value) => value.Sound known
  | .varDecl _ none => True
  | .varDecl _ (some init) => init.Sound known
  | .loop cond body => cond.Sound known ∧ body.Sound

/-- The machine can run the function. -/
def FunDecl.Sound : FunDecl → Prop
  | .mk _ _ body => Stmt.SoundAll body

/-- The machine can run the statements. -/
def Stmt.SoundAll : List Stmt → Prop
  | [] => True
  | s :: ss => s.Sound ∧ Stmt.SoundAll ss

end

variable {known}

theorem IsKnown.of_isMark {kind : Kind} {t? : Option Token} (hm : IsMark kind t?)
    (ht : ∀ t ∈ t?.toList, known t) : IsKnown known t? := by
  obtain ⟨t, rfl, -⟩ := hm
  exact ⟨t, rfl, ht t List.mem_cons_self⟩

mutual

theorem Expr.sound : ∀ e : Expr, e.Shaped → e.Marked → (∀ t ∈ e.tokens, known t) →
    e.Sound known
  | .assign _ _ value, hs, hm, ht => by
    obtain ⟨hname, hvalue⟩ := List.forall_mem_cons.1 ht
    exact ⟨hname, value.sound hs.2 hm hvalue⟩
  | .binary op lhs rhs, hs, hm, ht => by
    obtain ⟨⟨l, hl, hjoins⟩, hlhs, hrhs⟩ := hs
    obtain ⟨hop, ht⟩ := List.forall_mem_cons.1 ht
    obtain ⟨htl, htr⟩ := List.forall_mem_append.1 ht
    exact ⟨⟨hop, l, hl, hjoins.op_mem⟩, lhs.sound hlhs hm.1 htl, rhs.sound hrhs hm.2 htr⟩
  | .call callee paren args, hs, hm, ht => by
    obtain ⟨-, hcallee, hargs, -⟩ := hs
    obtain ⟨hparen, ht⟩ := List.forall_mem_append.1 ht
    obtain ⟨htc, hta⟩ := List.forall_mem_append.1 ht
    exact ⟨.of_isMark hm.1 hparen, callee.sound hcallee hm.2.1 htc,
      Expr.soundAll args hargs hm.2.2 hta⟩
  | .get object _, hs, hm, ht => by
    obtain ⟨hname, hobject⟩ := List.forall_mem_cons.1 ht
    exact ⟨hname, object.sound hs.2.1 hm hobject⟩
  | .group inner, hs, hm, ht => inner.sound hs hm ht
  | .literal _, hs, _, _ => hs
  | .logical op lhs rhs, hs, hm, ht => by
    obtain ⟨⟨l, hl, hjoins⟩, hlhs, hrhs⟩ := hs
    obtain ⟨hop, ht⟩ := List.forall_mem_cons.1 ht
    obtain ⟨htl, htr⟩ := List.forall_mem_append.1 ht
    exact ⟨⟨hop, l, hl, hjoins.op_mem⟩, lhs.sound hlhs hm.1 htl, rhs.sound hrhs hm.2 htr⟩
  | .set object _ value, hs, hm, ht => by
    obtain ⟨-, hobject, -, hvalue⟩ := hs
    obtain ⟨hname, ht⟩ := List.forall_mem_cons.1 ht
    obtain ⟨hto, htv⟩ := List.forall_mem_append.1 ht
    exact ⟨hname, object.sound hobject hm.1 hto, value.sound hvalue hm.2 htv⟩
  | .ternary cond _ yes none, hs, hm, ht => by
    obtain ⟨-, hcond, hyes⟩ := hs
    obtain ⟨htc, hty⟩ := List.forall_mem_append.1 (List.forall_mem_append.1 ht).2
    exact ⟨cond.sound hcond hm.2.1 htc, yes.sound hyes hm.2.2 hty⟩
  | .ternary cond _ yes (some no), hs, hm, ht => by
    obtain ⟨-, hcond, hyes, -, hno⟩ := hs
    obtain ⟨-, hmc, hmy, hmn⟩ := hm
    obtain ⟨htc, ht⟩ := List.forall_mem_append.1 (List.forall_mem_append.1 ht).2
    obtain ⟨hty, htn⟩ := List.forall_mem_append.1 ht
    exact ⟨cond.sound hcond hmc htc, yes.sound hyes hmy hty, no.sound hno hmn htn⟩
  | .unary _ operand, hs, hm, ht => by
    obtain ⟨hop, hoperand⟩ := List.forall_mem_cons.1 ht
    exact ⟨hop, hs.1, operand.sound hs.2.2 hm hoperand⟩
  | .variable _ name, _, _, ht => ht name List.mem_cons_self

theorem Expr.soundAll : ∀ es : List Expr, Expr.ShapedAll es → Expr.MarkedAll es →
    (∀ t ∈ Expr.tokensAll es, known t) → Expr.SoundAll known es
  | [], _, _, _ => trivial
  | e :: es, hs, hm, ht => by
    obtain ⟨hte, htes⟩ := List.forall_mem_append.1 ht
    exact ⟨e.sound hs.1 hm.1 hte, Expr.soundAll es hs.2 hm.2 htes⟩

end

mutual

theorem Stmt.sound : ∀ s : Stmt, s.Shaped → s.Marked → (∀ t ∈ s.tokens, known t) →
    s.Sound known
  | .block body, hs, hm, ht => Stmt.soundAll body hs hm ht
  | .classDecl _ _, _, _, _ => trivial
  | .expr value, hs, hm, ht => value.sound hs hm ht
  | .function decl, hs, hm, ht => decl.sound hs hm ht
  | .branch cond yes none, hs, hm, ht => by
    obtain ⟨htc, hty⟩ := List.forall_mem_append.1 ht
    exact ⟨cond.sound hs.1 hm.1 htc, yes.sound hs.2.1 hm.2 hty⟩
  | .branch cond yes (some no), hs, hm, ht => by
    obtain ⟨hcond, hyes, -, -, hno, -⟩ := hs
    obtain ⟨htc, ht⟩ := List.forall_mem_append.1 ht
    obtain ⟨hty, htn⟩ := List.forall_mem_append.1 ht
    exact ⟨cond.sound hcond hm.1 htc, yes.sound hyes hm.2.1 hty, no.sound hno hm.2.2 htn⟩
  | .print value, hs, hm, ht => value.sound hs hm ht
  | .ret _ none, _, _, _ => trivial
  | .ret _ (some value), hs, hm, ht => value.sound hs hm.2 (List.forall_mem_append.1 ht).2
  | .varDecl _ none, _, _, _ => trivial
  | .varDecl _ (some init), hs, hm, ht => init.sound hs.2 hm (List.forall_mem_cons.1 ht).2
  | .loop cond body, hs, hm, ht => by
    obtain ⟨htc, htb⟩ := List.forall_mem_append.1 ht
    exact ⟨cond.sound hs.1 hm.1 htc, body.sound hs.2.1 hm.2 htb⟩

theorem FunDecl.sound : ∀ f : FunDecl, f.Shaped → f.Marked → (∀ t ∈ f.tokens, known t) →
    f.Sound known
  | .mk _ _ body, hs, hm, ht => by
    obtain ⟨-, -, -, hbody⟩ := hs
    obtain ⟨-, ht⟩ := List.forall_mem_cons.1 ht
    exact Stmt.soundAll body hbody hm (List.forall_mem_append.1 ht).2

theorem Stmt.soundAll : ∀ ss : List Stmt, Stmt.ShapedAll ss → Stmt.MarkedAll ss →
    (∀ t ∈ Stmt.tokensAll ss, known t) → Stmt.SoundAll known ss
  | [], _, _, _ => trivial
  | s :: ss, hs, hm, ht => by
    obtain ⟨hts, htss⟩ := List.forall_mem_append.1 ht
    exact ⟨s.sound hs.1 hm.1 hts, Stmt.soundAll ss hs.2 hm.2 htss⟩

end

end Trees

end Wandika
