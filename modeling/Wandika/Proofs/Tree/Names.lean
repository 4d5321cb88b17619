import Wandika.Proofs.Tree.Relabel
import Wandika.Proofs.Tree.Shape

/-!
# The names of a tree

* `Expr.names`, `Stmt.names`, `FunDecl.names`: the names in a tree from left to right, those of
  variables, functions, classes, parameters and properties;
* `identifiers_yield`: they are what the tree shows of identifiers;
* `Stmt.names_relabel`: the names of a changed tree.
-/

namespace Wandika

mutual

/-- The names in an expression. -/
def Expr.names : Expr → List Token
  | .assign _ name value => name :: value.names
  | .binary _ lhs rhs => lhs.names ++ rhs.names
  | .call callee _ args => callee.names ++ Expr.namesAll args
  | .get object name => object.names ++ [name]
  | .group inner => inner.names
  | .literal _ => []
  | .logical _ lhs rhs => lhs.names ++ rhs.names
  | .set object name value => object.names ++ name :: value.names
  | .ternary cond _ yes none => cond.names ++ yes.names
  | .ternary cond _ yes (some no) => cond.names ++ (yes.names ++ no.names)
  | .unary _ operand => operand.names
  | .variable _ name => [name]

/-- The names in several expressions. -/
def Expr.namesAll : List Expr → List Token
  | [] => []
  | e :: es => e.names ++ Expr.namesAll es

end

mutual

/-- The names in a statement. -/
def Stmt.names : Stmt → List Token
  | .block body => Stmt.namesAll body
  | .classDecl name methods => name :: FunDecl.namesAll methods
  | .expr value => value.names
  | .function decl => decl.names
  | .branch cond yes none => cond.names ++ yes.names
  | .branch cond yes (some no) => cond.names ++ (yes.names ++ no.names)
  | .print value => value.names
  | .ret _ none => []
  | .ret _ (some value) => value.names
  | .varDecl name none => [name]
  | .varDecl name (some init) => name :: init.names
  | .loop cond body => cond.names ++ body.names

/-- The names in a function, its own first. -/
def FunDecl.names : FunDecl → List Token
  | .mk name params body => name :: (params ++ Stmt.namesAll body)

/-- The names in several statements. -/
def Stmt.namesAll : List Stmt → List Token
  | [] => []
  | s :: ss => s.names ++ Stmt.namesAll ss

/-- The names in several functions. -/
def FunDecl.namesAll : List FunDecl → List Token
  | [] => []
  | f :: fs => f.names ++ FunDecl.namesAll fs

end

/-! ### Names are the identifiers of a tree -/

/-- The signs of identifiers. -/
def Sign.identifiers (signs : List Sign) : List Sign :=
  signs.filter (·.kind = .identifier)

namespace Sign

@[simp] theorem identifiers_nil : identifiers [] = [] := rfl

@[simp] theorem identifiers_append (xs ys : List Sign) :
    identifiers (xs ++ ys) = identifiers xs ++ identifiers ys :=
  List.filter_append ..

theorem identifiers_cons_name {t : Token} (h : t.kind = .identifier) (signs : List Sign) :
    identifiers (t.sign :: signs) = t.sign :: identifiers signs :=
  List.filter_cons_of_pos (by simp [h])

theorem identifiers_cons_other {s : Sign} (h : s.kind ≠ .identifier) (signs : List Sign) :
    identifiers (s :: signs) = identifiers signs :=
  List.filter_cons_of_neg (by simp [h])

@[simp] theorem identifiers_cons_mark (k : Kind) (hk : k ≠ .identifier) (signs : List Sign) :
    identifiers (.mark k :: signs) = identifiers signs :=
  identifiers_cons_other (s := .mark k) hk signs

end Sign

open Sign (identifiers identifiers_cons_name identifiers_cons_other)

theorem identifiers_map_sign (ts : List Token) :
    identifiers (ts.map Token.sign) = (ts.filter (·.kind = .identifier)).map Token.sign := by
  simp [identifiers, List.filter_map, Function.comp_def]

theorem identifiers_datum (d : Datum) : identifiers d.yield = [] := by
  cases d with
  | bool b => cases b <;> rfl
  | _ => rfl

/-- A binary operator is no identifier. -/
theorem Level.Joins.kind_ne {l : Level} {op : Token} {lhs rhs : Expr} (h : l.Joins op lhs rhs) :
    op.sign.kind ≠ .identifier := by
  have := h.op_mem
  rw [Token.kind_sign]
  intro he
  rw [he] at this
  cases l <;> simp [Level.operators] at this

theorem identifiers_yieldAll_tokens : ∀ {ts : List Token}, (∀ t ∈ ts, t.kind = .identifier) →
    identifiers (Token.yieldAll ts) = ts.map Token.sign
  | [], _ => rfl
  | [t], h => identifiers_cons_name (h t (by simp)) []
  | t :: u :: ts, h => by
      have ih : identifiers (Token.yieldAll (u :: ts)) = (u :: ts).map Token.sign :=
        identifiers_yieldAll_tokens fun t ht => h t (List.mem_cons_of_mem _ ht)
      rw [Token.yieldAll_cons _ (by simp), identifiers_cons_name (h t (by simp))]
      simp [ih]

mutual

/-- The identifiers that an expression shows are its names. -/
theorem identifiers_yield : ∀ {e : Expr}, e.Shaped → identifiers e.yield = e.names.map Token.sign
  | .assign _ name value, ⟨hn, hv⟩ => by
      simp [Expr.yield, Expr.names, identifiers_cons_name hn, identifiers_yield hv]
  | .binary op lhs rhs, ⟨⟨_, _, hj⟩, hl, hr⟩ | .logical op lhs rhs, ⟨⟨_, _, hj⟩, hl, hr⟩ => by
      simp [Expr.yield, Expr.names, identifiers_cons_other hj.kind_ne, identifiers_yield hl,
        identifiers_yield hr]
  | .call callee _ args, ⟨_, hc, ha, _⟩ => by
      simp [Expr.yield, Expr.names, identifiers_yield hc, identifiers_yieldAll ha]
  | .get object name, ⟨_, ho, hn⟩ => by
      simp [Expr.yield, Expr.names, identifiers_cons_name hn, identifiers_yield ho]
  | .group inner, hi => by
      have : inner.Shaped := hi
      simp [Expr.yield, Expr.names, identifiers_yield this]
  | .literal value, _ => by simp [Expr.yield, Expr.names, identifiers_datum]
  | .set object name value, ⟨_, ho, hn, hv⟩ => by
      simp [Expr.yield, Expr.names, identifiers_cons_name hn, identifiers_yield ho,
        identifiers_yield hv]
  | .ternary cond _ yes none, ⟨_, hc, hy⟩ => by
      simp [Expr.yield, Expr.names, identifiers_yield hc, identifiers_yield hy]
  | .ternary cond _ yes (some no), ⟨_, hc, hy, _, hn⟩ => by
      simp [Expr.yield, Expr.names, identifiers_yield hc, identifiers_yield hy,
        identifiers_yield hn]
  | .unary op operand, ⟨hop, _, ho⟩ => by
      have : op.sign.kind ≠ .identifier := by
        rw [Token.kind_sign]
        intro he
        rw [he] at hop
        simp at hop
      simp [Expr.yield, Expr.names, identifiers_cons_other this, identifiers_yield ho]
  | .variable _ name, hn => identifiers_cons_name hn []

theorem identifiers_yieldAll : ∀ {es : List Expr}, Expr.ShapedAll es →
    identifiers (Expr.yieldAll es) = (Expr.namesAll es).map Token.sign
  | [], _ => rfl
  | [e], ⟨he, _⟩ => by simp [Expr.yieldAll, Expr.namesAll, identifiers_yield he]
  | e :: e' :: es, ⟨he, hes⟩ => by
      rw [Expr.yieldAll_cons _ (by simp), Expr.namesAll, Sign.identifiers_append,
        identifiers_yield he, Sign.identifiers_cons_mark _ (by decide), identifiers_yieldAll hes,
        List.map_append]

end

mutual

/-- The identifiers that a statement shows are its names. -/
theorem identifiers_yield_stmt : ∀ {s : Stmt}, s.Shaped →
    identifiers s.yield = s.names.map Token.sign
  | .block body, hb => by
      have : Stmt.ShapedAll body := hb
      simp [Stmt.yield, Stmt.names, identifiers_yield_stmts this]
  | .classDecl name methods, ⟨hn, hm⟩ => by
      simp [Stmt.yield, Stmt.names, identifiers_cons_name hn, identifiers_yield_functions hm]
  | .expr value, hv => by
      have : value.Shaped := hv
      simp [Stmt.yield, Stmt.names, identifiers_yield this]
  | .print value, hv => by
      have : value.Shaped := hv
      simp [Stmt.yield, Stmt.names, identifiers_yield this]
  | .function decl, hd => by
      have : decl.Shaped := hd
      simp [Stmt.yield, Stmt.names, identifiers_yield_function this]
  | .branch cond yes none, ⟨hc, hy, _⟩ => by
      simp [Stmt.yield, Stmt.names, identifiers_yield hc, identifiers_yield_stmt hy]
  | .branch cond yes (some no), ⟨hc, hy, _, _, hn, _⟩ => by
      simp [Stmt.yield, Stmt.names, identifiers_yield hc, identifiers_yield_stmt hy,
        identifiers_yield_stmt hn]
  | .ret _ none, _ => by simp [Stmt.yield, Stmt.names]
  | .ret _ (some value), hv => by
      have : value.Shaped := hv
      simp [Stmt.yield, Stmt.names, identifiers_yield this]
  | .varDecl name none, hn => by
      have : name.kind = .identifier := hn
      simp [Stmt.yield, Stmt.names, identifiers_cons_name this]
  | .varDecl name (some init), ⟨hn, hi⟩ => by
      simp [Stmt.yield, Stmt.names, identifiers_cons_name hn, identifiers_yield hi]
  | .loop cond body, ⟨hc, hb, _⟩ => by
      simp [Stmt.yield, Stmt.names, identifiers_yield hc, identifiers_yield_stmt hb]

theorem identifiers_yield_function : ∀ {f : FunDecl}, f.Shaped →
    identifiers f.yield = f.names.map Token.sign
  | .mk name params body, ⟨hn, hp, _, hb⟩ => by
      simp [FunDecl.yield, FunDecl.names, identifiers_cons_name hn,
        identifiers_yieldAll_tokens hp, identifiers_yield_stmts hb]

theorem identifiers_yield_stmts : ∀ {ss : List Stmt}, Stmt.ShapedAll ss →
    identifiers (Stmt.yieldAll ss) = (Stmt.namesAll ss).map Token.sign
  | [], _ => rfl
  | s :: ss, ⟨hs, hss⟩ => by
      simp [Stmt.yieldAll, Stmt.namesAll, identifiers_yield_stmt hs, identifiers_yield_stmts hss]

theorem identifiers_yield_functions : ∀ {fs : List FunDecl}, FunDecl.ShapedAll fs →
    identifiers (FunDecl.yieldAll fs) = (FunDecl.namesAll fs).map Token.sign
  | [], _ => rfl
  | f :: fs, ⟨hf, hfs⟩ => by
      simp [FunDecl.yieldAll, FunDecl.namesAll, identifiers_yield_function hf,
        identifiers_yield_functions hfs]

end

theorem kind_of_mem_names {ss : List Stmt} (h : Stmt.ShapedAll ss) :
    ∀ t ∈ Stmt.namesAll ss, t.kind = .identifier := by
  intro t ht
  have hm : t.sign ∈ identifiers (Stmt.yieldAll ss) := by
    rw [identifiers_yield_stmts h]
    exact List.mem_map_of_mem ht
  simpa using (List.mem_filter.1 hm).2

/-! ### Names of changed trees -/

section Relabel

variable (ρ : Relabel)

mutual

theorem Expr.names_relabel : ∀ e : Expr, (e.relabel ρ).names = e.names.map ρ.token
  | .assign _ name value => by simp [Expr.relabel, Expr.names, Expr.names_relabel value]
  | .binary _ lhs rhs | .logical _ lhs rhs => by
      simp [Expr.relabel, Expr.names, Expr.names_relabel lhs, Expr.names_relabel rhs]
  | .call callee _ args => by
      simp [Expr.relabel, Expr.names, Expr.names_relabel callee, Expr.namesAll_relabelAll args]
  | .get object name => by simp [Expr.relabel, Expr.names, Expr.names_relabel object]
  | .group inner => by simp [Expr.relabel, Expr.names, Expr.names_relabel inner]
  | .literal value => rfl
  | .set object name value => by
      simp [Expr.relabel, Expr.names, Expr.names_relabel object, Expr.names_relabel value]
  | .ternary cond _ yes none => by
      simp [Expr.relabel, Expr.names, Expr.names_relabel cond, Expr.names_relabel yes]
  | .ternary cond _ yes (some no) => by
      simp [Expr.relabel, Expr.names, Expr.names_relabel cond, Expr.names_relabel yes,
        Expr.names_relabel no]
  | .unary _ operand => by simp [Expr.relabel, Expr.names, Expr.names_relabel operand]
  | .variable _ name => rfl

theorem Expr.namesAll_relabelAll : ∀ es : List Expr,
    Expr.namesAll (Expr.relabelAll ρ es) = (Expr.namesAll es).map ρ.token
  | [] => rfl
  | e :: es => by
      simp [Expr.relabelAll, Expr.namesAll, Expr.names_relabel e, Expr.namesAll_relabelAll es]

end

mutual

theorem Stmt.names_relabel : ∀ s : Stmt, (s.relabel ρ).names = s.names.map ρ.token
  | .block body => by simp [Stmt.relabel, Stmt.names, Stmt.namesAll_relabelAll body]
  | .classDecl name methods => by
      simp [Stmt.relabel, Stmt.names, FunDecl.namesAll_relabelAll methods]
  | .expr value | .print value | .ret _ (some value) | .varDecl _ (some value) => by
      simp [Stmt.relabel, Stmt.names, Expr.names_relabel]
  | .function decl => by simp [Stmt.relabel, Stmt.names, FunDecl.names_relabel decl]
  | .branch cond yes none => by
      simp [Stmt.relabel, Stmt.names, Expr.names_relabel, Stmt.names_relabel yes]
  | .branch cond yes (some no) => by
      simp [Stmt.relabel, Stmt.names, Expr.names_relabel, Stmt.names_relabel yes,
        Stmt.names_relabel no]
  | .ret _ none | .varDecl _ none => by simp [Stmt.relabel, Stmt.names]
  | .loop cond body => by
      simp [Stmt.relabel, Stmt.names, Expr.names_relabel, Stmt.names_relabel body]

theorem FunDecl.names_relabel : ∀ f : FunDecl, (f.relabel ρ).names = f.names.map ρ.token
  | .mk name params body => by
      simp [FunDecl.relabel, FunDecl.names, Stmt.namesAll_relabelAll body]

theorem Stmt.namesAll_relabelAll : ∀ ss : List Stmt,
    Stmt.namesAll (Stmt.relabelAll ρ ss) = (Stmt.namesAll ss).map ρ.token
  | [] => rfl
  | s :: ss => by
      simp [Stmt.relabelAll, Stmt.namesAll, Stmt.names_relabel s, Stmt.namesAll_relabelAll ss]

theorem FunDecl.namesAll_relabelAll : ∀ fs : List FunDecl,
    FunDecl.namesAll (FunDecl.relabelAll ρ fs) = (FunDecl.namesAll fs).map ρ.token
  | [] => rfl
  | f :: fs => by
      simp [FunDecl.relabelAll, FunDecl.namesAll, FunDecl.names_relabel f,
        FunDecl.namesAll_relabelAll fs]

end

end Relabel

end Wandika
