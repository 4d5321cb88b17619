import Wandika.Proofs.Tree.Yield

/-!
# Trees with other tokens and numbers

* `Relabel`: a change of tokens that keeps their kinds and literals, with an offset of the node
  numbers;
* `Relabel.down`: lines are counted on from an earlier text;
* `Expr.relabel`, `Stmt.relabel`, `FunDecl.relabel`: the change throughout a tree.
-/

namespace Wandika

/-- How the tokens of a tree are changed, and what is added to its node numbers. -/
structure Relabel where
  token : Token → Token
  offset : Nat := 0
  kind_token : ∀ t, (token t).kind = t.kind
  literal_token : ∀ t, (token t).literal = t.literal

attribute [simp] Relabel.kind_token Relabel.literal_token

/-- The change that changes nothing. -/
def Relabel.refl : Relabel where
  token := id
  kind_token _ := rfl
  literal_token _ := rfl

@[simp] theorem Relabel.token_refl (t : Token) : Relabel.refl.token t = t := rfl

@[simp] theorem Relabel.token_refl_eq : Relabel.refl.token = id := rfl

@[simp] theorem Relabel.offset_refl : Relabel.refl.offset = 0 := rfl

/-- The place that many lines further down. -/
def Position.down (lines : Nat) (p : Position) : Position := ⟨p.line + lines, p.column⟩

/-- A token that many lines further down. -/
def Token.down (lines : Nat) (t : Token) : Token := { t with pos := t.pos.down lines }

/-- The tree of a text that stands that many lines further down. -/
def Relabel.down (lines offset : Nat) : Relabel where
  token := Token.down lines
  offset := offset
  kind_token _ := rfl
  literal_token _ := rfl

variable (ρ : Relabel)

mutual

/-- An expression with other tokens and numbers. -/
def Expr.relabel : Expr → Expr
  | .assign id name value => .assign (id + ρ.offset) (ρ.token name) value.relabel
  | .binary op lhs rhs => .binary (ρ.token op) lhs.relabel rhs.relabel
  | .call callee paren args => .call callee.relabel (paren.map ρ.token) (Expr.relabelAll args)
  | .get object name => .get object.relabel (ρ.token name)
  | .group inner => .group inner.relabel
  | .literal value => .literal value
  | .logical op lhs rhs => .logical (ρ.token op) lhs.relabel rhs.relabel
  | .set object name value => .set object.relabel (ρ.token name) value.relabel
  | .ternary cond question yes none =>
      .ternary cond.relabel (question.map ρ.token) yes.relabel none
  | .ternary cond question yes (some no) =>
      .ternary cond.relabel (question.map ρ.token) yes.relabel (some no.relabel)
  | .unary op operand => .unary (ρ.token op) operand.relabel
  | .variable id name => .variable (id + ρ.offset) (ρ.token name)

/-- Several expressions with other tokens and numbers. -/
def Expr.relabelAll : List Expr → List Expr
  | [] => []
  | e :: es => e.relabel :: Expr.relabelAll es

end

mutual

/-- A statement with other tokens and numbers. -/
def Stmt.relabel : Stmt → Stmt
  | .block body => .block (Stmt.relabelAll body)
  | .classDecl name methods => .classDecl (ρ.token name) (FunDecl.relabelAll methods)
  | .expr value => .expr (value.relabel ρ)
  | .function decl => .function decl.relabel
  | .branch cond yes none => .branch (cond.relabel ρ) yes.relabel none
  | .branch cond yes (some no) => .branch (cond.relabel ρ) yes.relabel (some no.relabel)
  | .print value => .print (value.relabel ρ)
  | .ret keyword none => .ret (keyword.map ρ.token) none
  | .ret keyword (some value) => .ret (keyword.map ρ.token) (some (value.relabel ρ))
  | .varDecl name none => .varDecl (ρ.token name) none
  | .varDecl name (some init) => .varDecl (ρ.token name) (some (init.relabel ρ))
  | .loop cond body => .loop (cond.relabel ρ) body.relabel

/-- A function with other tokens and numbers. -/
def FunDecl.relabel : FunDecl → FunDecl
  | .mk name params body => .mk (ρ.token name) (params.map ρ.token) (Stmt.relabelAll body)

/-- Several statements with other tokens and numbers. -/
def Stmt.relabelAll : List Stmt → List Stmt
  | [] => []
  | s :: ss => s.relabel :: Stmt.relabelAll ss

/-- Several functions with other tokens and numbers. -/
def FunDecl.relabelAll : List FunDecl → List FunDecl
  | [] => []
  | f :: fs => f.relabel :: FunDecl.relabelAll fs

end

theorem Expr.relabelAll_eq (es : List Expr) : Expr.relabelAll ρ es = es.map (Expr.relabel ρ) := by
  induction es with
  | nil => rfl
  | cons e es ih => rw [Expr.relabelAll, ih, List.map_cons]

theorem Stmt.relabelAll_eq (ss : List Stmt) : Stmt.relabelAll ρ ss = ss.map (Stmt.relabel ρ) := by
  induction ss with
  | nil => rfl
  | cons s ss ih => rw [Stmt.relabelAll, ih, List.map_cons]

mutual

@[simp] theorem Expr.relabel_refl : ∀ e : Expr, e.relabel .refl = e
  | .assign id name value => by simp [Expr.relabel, Expr.relabel_refl value]
  | .binary op lhs rhs | .logical op lhs rhs => by
      simp [Expr.relabel, Expr.relabel_refl lhs, Expr.relabel_refl rhs]
  | .call callee paren args => by
      simp [Expr.relabel, Expr.relabel_refl callee, Expr.relabelAll_refl args]
  | .get object name => by simp [Expr.relabel, Expr.relabel_refl object]
  | .group inner => by simp [Expr.relabel, Expr.relabel_refl inner]
  | .literal value => rfl
  | .set object name value => by
      simp [Expr.relabel, Expr.relabel_refl object, Expr.relabel_refl value]
  | .ternary cond question yes none => by
      simp [Expr.relabel, Expr.relabel_refl cond, Expr.relabel_refl yes]
  | .ternary cond question yes (some no) => by
      simp [Expr.relabel, Expr.relabel_refl cond, Expr.relabel_refl yes, Expr.relabel_refl no]
  | .unary op operand => by simp [Expr.relabel, Expr.relabel_refl operand]
  | .variable id name => by simp [Expr.relabel]

theorem Expr.relabelAll_refl : ∀ es : List Expr, Expr.relabelAll .refl es = es
  | [] => rfl
  | e :: es => by rw [Expr.relabelAll, Expr.relabel_refl e, Expr.relabelAll_refl es]

end

mutual

@[simp] theorem Stmt.relabel_refl : ∀ s : Stmt, s.relabel .refl = s
  | .block body => by rw [Stmt.relabel, Stmt.relabelAll_refl body]
  | .classDecl name methods => by
      simp [Stmt.relabel, FunDecl.relabelAll_refl methods]
  | .expr value | .print value => by simp [Stmt.relabel]
  | .function decl => by rw [Stmt.relabel, FunDecl.relabel_refl decl]
  | .branch cond yes none => by simp [Stmt.relabel, Stmt.relabel_refl yes]
  | .branch cond yes (some no) => by
      simp [Stmt.relabel, Stmt.relabel_refl yes, Stmt.relabel_refl no]
  | .ret keyword none | .ret keyword (some value) => by simp [Stmt.relabel]
  | .varDecl name none | .varDecl name (some init) => by simp [Stmt.relabel]
  | .loop cond body => by simp [Stmt.relabel, Stmt.relabel_refl body]

@[simp] theorem FunDecl.relabel_refl : ∀ f : FunDecl, f.relabel .refl = f
  | .mk name params body => by
      simp [FunDecl.relabel, Stmt.relabelAll_refl body]

theorem Stmt.relabelAll_refl : ∀ ss : List Stmt, Stmt.relabelAll .refl ss = ss
  | [] => rfl
  | s :: ss => by rw [Stmt.relabelAll, Stmt.relabel_refl s, Stmt.relabelAll_refl ss]

theorem FunDecl.relabelAll_refl : ∀ fs : List FunDecl, FunDecl.relabelAll .refl fs = fs
  | [] => rfl
  | f :: fs => by rw [FunDecl.relabelAll, FunDecl.relabel_refl f, FunDecl.relabelAll_refl fs]

end

@[simp] theorem FunDecl.params_relabel (f : FunDecl) :
    (f.relabel ρ).params = f.params.map ρ.token := by
  cases f
  rw [FunDecl.relabel]
  rfl

@[simp] theorem FunDecl.body_relabel (f : FunDecl) :
    (f.relabel ρ).body = f.body.map (Stmt.relabel ρ) := by
  cases f
  rw [FunDecl.relabel, ← Stmt.relabelAll_eq]
  rfl

@[simp] theorem FunDecl.name_relabel (f : FunDecl) : (f.relabel ρ).name = ρ.token f.name := by
  cases f
  rw [FunDecl.relabel]
  rfl

end Wandika
