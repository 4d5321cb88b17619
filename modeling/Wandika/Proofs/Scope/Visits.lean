import Mathlib.Tactic
import Wandika.Proofs.Tree.Yield
import Wandika.Scope

/-!
# What the analysis of scopes visits

The analysis meets every variable node of a program once. A visit records the node with the scopes
that are open there, and with the blocks and functions that the scopes belong to.

* `Area`: a block or a function, which opens one scope;
* `Stmt.declared`, `Area.declared`: the names that an area declares;
* `Stmt.settles`, `Stmt.doubtful`: the names that are bound whenever a statement has been completed,
  and the names that it declares but may leave unbound;
* `Layer`: an area together with the names that are bound in it, for certain or perhaps;
* `Visit`, `Stmt.visits`: the visits of a statement;
* `Stmt.perm_visits`: every node is visited once.
-/

namespace Wandika

/-! ### Areas -/

/-- What opens a scope: a block, or a function. -/
inductive Area
  | block (body : List Stmt)
  | call (decl : FunDecl)

/-- The names that a statement declares in the scope it stands in. -/
def Stmt.declared : Stmt → List String
  | .classDecl name _ => [name.lexeme]
  | .function decl => [decl.name.lexeme]
  | .varDecl name _ => [name.lexeme]
  | .branch _ yes none => yes.declared
  | .branch _ yes (some no) => yes.declared ++ no.declared
  | .loop _ body => body.declared
  | .block _ | .expr _ | .print _ | .ret _ _ => []

/-- The names that a statement binds whenever it is completed, in the frame it is run in. What
stands under a condition counts if both branches bind it, and what stands in a loop does not. -/
def Stmt.settles : Stmt → List String
  | .classDecl name _ => [name.lexeme]
  | .function decl => [decl.name.lexeme]
  | .varDecl name _ => [name.lexeme]
  | .branch _ yes (some no) => yes.settles.filter (· ∈ no.settles)
  | .branch _ _ none | .loop _ _ | .block _ | .expr _ | .print _ | .ret _ _ => []

/-- The names that a statement declares but need not bind when it is completed. -/
def Stmt.doubtful (s : Stmt) : List String :=
  s.declared.filter (· ∉ s.settles)

/-- The parameters of an area. A block has none. -/
def Area.params : Area → List Token
  | .block _ => []
  | .call decl => decl.params

/-- The statements of an area. -/
def Area.body : Area → List Stmt
  | .block body => body
  | .call decl => decl.body

/-- The names that an area declares. -/
def Area.declared (a : Area) : List String :=
  a.params.map Token.lexeme ++ a.body.flatMap Stmt.declared

/-- An area, the names that are bound in its frame for certain, and the names that are declared in
its scope but may be unbound. -/
structure Layer where
  area : Area
  settled : List String := []
  doubtful : List String := []

/-- The layers, from the innermost outwards, after further names were bound in the innermost. -/
def settle (names : List String) : List Layer → List Layer
  | [] => []
  | layer :: layers => { layer with settled := layer.settled ++ names } :: layers

/-- The layers after further names were declared in the innermost that may be unbound. -/
def doubt (names : List String) : List Layer → List Layer
  | [] => []
  | layer :: layers => { layer with doubtful := layer.doubtful ++ names } :: layers

@[simp] theorem settle_nil (layers : List Layer) : settle [] layers = layers := by
  cases layers <;> simp [settle]

@[simp] theorem doubt_nil (layers : List Layer) : doubt [] layers = layers := by
  cases layers <;> simp [doubt]

/-- The innermost area declares the names; outside of every area anything may be declared. -/
def Declares : List Layer → List String → Prop
  | [], _ => True
  | layer :: _, names => names ⊆ layer.area.declared

theorem Declares.nil (layers : List Layer) : Declares layers [] := by
  cases layers with
  | nil => trivial
  | cons layer layers => exact List.nil_subset _

theorem Declares.mono {layers : List Layer} {xs ys : List String} (h : Declares layers ys)
    (hs : xs ⊆ ys) : Declares layers xs := by
  cases layers with
  | nil => trivial
  | cons layer layers => exact fun x hx => h (hs hx)

theorem Declares.settle {layers : List Layer} {xs : List String} (h : Declares layers xs)
    (names : List String) : Declares (settle names layers) xs := by
  cases layers with
  | nil => trivial
  | cons layer layers => exact h

theorem Declares.doubt {layers : List Layer} {xs : List String} (h : Declares layers xs)
    (names : List String) : Declares (doubt names layers) xs := by
  cases layers with
  | nil => trivial
  | cons layer layers => exact h

/-! ### Visits -/

/-- A variable node as the analysis meets it: its number and its name, the layers it stands in and
the scopes that are open, both from the innermost outwards. -/
structure Visit where
  id : Int
  name : String
  layers : List Layer
  scopes : List Scope

mutual

/-- The variable nodes of an expression, in the order of the analysis. -/
def Expr.mentions : Expr → List (Int × Token)
  | .assign id name value => value.mentions ++ [(id, name)]
  | .binary _ lhs rhs => lhs.mentions ++ rhs.mentions
  | .call callee _ args => callee.mentions ++ Expr.mentionsAll args
  | .get object _ => object.mentions
  | .group inner => inner.mentions
  | .literal _ => []
  | .logical _ lhs rhs => lhs.mentions ++ rhs.mentions
  | .set object _ value => value.mentions ++ object.mentions
  | .ternary cond _ yes none => cond.mentions ++ yes.mentions
  | .ternary cond _ yes (some no) => cond.mentions ++ (yes.mentions ++ no.mentions)
  | .unary _ operand => operand.mentions
  | .variable id name => [(id, name)]

/-- The variable nodes of several expressions. -/
def Expr.mentionsAll : List Expr → List (Int × Token)
  | [] => []
  | e :: es => e.mentions ++ Expr.mentionsAll es

end

/-- The visit of a variable node at a place. -/
def Visit.ofMention (layers : List Layer) (scopes : List Scope) (m : Int × Token) : Visit :=
  ⟨m.1, m.2.lexeme, layers, scopes⟩

/-- The visits of an expression. It opens no scope and declares nothing. -/
def Expr.visits (layers : List Layer) (scopes : List Scope) (e : Expr) : List Visit :=
  e.mentions.map (Visit.ofMention layers scopes)

/-- The state that a step of the analysis leaves, however it ends. -/
def Resolve.after (act : Resolve) (r : Resolver) : Resolver :=
  match act r with
  | .ok _ r' => r'
  | .error _ r' => r'

/-- The state in which the analysis begins the body of an area. -/
def Resolver.opened (r : Resolver) (region : Region) (params : List Token) : Resolver :=
  Resolve.after (Resolve.defineAll params) { r with scopes := [] :: r.scopes, region }

mutual

/-- The visits of a statement that the analysis begins in the state `r`. A function or a class is
bound for certain wherever its own body is run; a variable may be unbound in its initialiser, and
what the first branch of a condition declares may be unbound in the second. -/
def Stmt.visits (layers : List Layer) (r : Resolver) : Stmt → List Visit
  | .block body => Stmt.visitsAll ({ area := .block body } :: layers) (r.opened r.region []) body
  | .classDecl name methods =>
      FunDecl.visitsAll (settle [name.lexeme] layers) .method
        (Resolve.after (do Resolve.declare name; Resolve.define name) r) methods
  | .expr value => value.visits layers r.scopes
  | .function decl =>
      decl.visits (settle [decl.name.lexeme] layers) .function
        (Resolve.after (do Resolve.declare decl.name; Resolve.define decl.name) r)
  | .branch cond yes none =>
      cond.visits layers r.scopes ++ yes.visits layers (Resolve.after (Resolve.expr cond) r)
  | .branch cond yes (some no) =>
      cond.visits layers r.scopes ++ (yes.visits layers (Resolve.after (Resolve.expr cond) r) ++
        no.visits (doubt yes.declared layers)
          (Resolve.after (do Resolve.expr cond; Resolve.stmt yes) r))
  | .print value => value.visits layers r.scopes
  | .ret _ none => []
  | .ret _ (some value) => value.visits layers r.scopes
  | .varDecl _ none => []
  | .varDecl name (some init) =>
      init.visits (doubt [name.lexeme] layers) (Resolve.after (Resolve.declare name) r).scopes
  | .loop cond body =>
      cond.visits layers r.scopes ++ body.visits layers (Resolve.after (Resolve.expr cond) r)

/-- The visits of a function. Its parameters are bound for certain. -/
def FunDecl.visits (layers : List Layer) (region : Region) (r : Resolver) : FunDecl → List Visit
  | .mk name params body =>
      Stmt.visitsAll
        ({ area := .call (.mk name params body), settled := params.map Token.lexeme } :: layers)
        (r.opened region params) body

/-- The visits of several statements. Each comes after the names that those before it declare. -/
def Stmt.visitsAll (layers : List Layer) (r : Resolver) : List Stmt → List Visit
  | [] => []
  | s :: ss =>
      s.visits layers r ++
        Stmt.visitsAll (settle s.settles (doubt s.doubtful layers))
          (Resolve.after (Resolve.stmt s) r) ss

/-- The visits of several functions. -/
def FunDecl.visitsAll (layers : List Layer) (region : Region) (r : Resolver) :
    List FunDecl → List Visit
  | [] => []
  | f :: fs =>
      f.visits layers region r ++
        FunDecl.visitsAll layers region (Resolve.after (Resolve.function region f) r) fs

end

/-! ### Every node once -/

mutual

theorem Expr.perm_mentions : ∀ e : Expr, (e.mentions.map Prod.fst).Perm e.ids
  | .assign id name value => by
      simp only [Expr.mentions, Expr.ids, List.map_append, List.map_cons, List.map_nil]
      exact (List.perm_append_singleton id _).trans ((Expr.perm_mentions value).cons id)
  | .binary _ lhs rhs | .logical _ lhs rhs => by
      simp only [Expr.mentions, Expr.ids, List.map_append]
      exact (Expr.perm_mentions lhs).append (Expr.perm_mentions rhs)
  | .call callee _ args => by
      simp only [Expr.mentions, Expr.ids, List.map_append]
      exact (Expr.perm_mentions callee).append (Expr.perm_mentionsAll args)
  | .get object _ => Expr.perm_mentions object
  | .group inner => Expr.perm_mentions inner
  | .literal _ => .nil
  | .set object _ value => by
      simp only [Expr.mentions, Expr.ids, List.map_append]
      exact List.perm_append_comm.trans
        ((Expr.perm_mentions object).append (Expr.perm_mentions value))
  | .ternary cond _ yes none => by
      simp only [Expr.mentions, Expr.ids, List.map_append]
      exact (Expr.perm_mentions cond).append (Expr.perm_mentions yes)
  | .ternary cond _ yes (some no) => by
      simp only [Expr.mentions, Expr.ids, List.map_append]
      exact (Expr.perm_mentions cond).append
        ((Expr.perm_mentions yes).append (Expr.perm_mentions no))
  | .unary _ operand => Expr.perm_mentions operand
  | .variable id name => by simp [Expr.mentions, Expr.ids]

theorem Expr.perm_mentionsAll : ∀ es : List Expr,
    ((Expr.mentionsAll es).map Prod.fst).Perm (Expr.idsAll es)
  | [] => .nil
  | e :: es => by
      simp only [Expr.mentionsAll, Expr.idsAll, List.map_append]
      exact (Expr.perm_mentions e).append (Expr.perm_mentionsAll es)

end

theorem Expr.perm_visits (layers : List Layer) (scopes : List Scope) (e : Expr) :
    ((e.visits layers scopes).map Visit.id).Perm e.ids := by
  have := Expr.perm_mentions e
  simpa [Expr.visits, Visit.ofMention, Function.comp_def] using this

mutual

theorem Stmt.perm_visits (layers : List Layer) (r : Resolver) :
    ∀ s : Stmt, ((s.visits layers r).map Visit.id).Perm s.ids
  | .block body => Stmt.perm_visitsAll _ _ body
  | .classDecl _ methods => FunDecl.perm_visitsAll _ _ _ methods
  | .expr value | .print value | .ret _ (some value) => Expr.perm_visits _ _ value
  | .varDecl _ (some init) => Expr.perm_visits _ _ init
  | .function decl => FunDecl.perm_visits _ _ _ decl
  | .branch cond yes none => by
      simp only [Stmt.visits, Stmt.ids, List.map_append]
      exact (Expr.perm_visits _ _ cond).append (Stmt.perm_visits _ _ yes)
  | .branch cond yes (some no) => by
      simp only [Stmt.visits, Stmt.ids, List.map_append]
      exact (Expr.perm_visits _ _ cond).append
        ((Stmt.perm_visits _ _ yes).append (Stmt.perm_visits _ _ no))
  | .ret _ none | .varDecl _ none => .nil
  | .loop cond body => by
      simp only [Stmt.visits, Stmt.ids, List.map_append]
      exact (Expr.perm_visits _ _ cond).append (Stmt.perm_visits _ _ body)

theorem FunDecl.perm_visits (layers : List Layer) (region : Region) (r : Resolver) :
    ∀ f : FunDecl, ((f.visits layers region r).map Visit.id).Perm f.ids
  | .mk _ _ body => Stmt.perm_visitsAll _ _ body

/-- Every variable node is visited once. -/
theorem Stmt.perm_visitsAll (layers : List Layer) (r : Resolver) :
    ∀ ss : List Stmt, ((Stmt.visitsAll layers r ss).map Visit.id).Perm (Stmt.idsAll ss)
  | [] => .nil
  | s :: ss => by
      simp only [Stmt.visitsAll, Stmt.idsAll, List.map_append]
      exact (Stmt.perm_visits _ _ s).append (Stmt.perm_visitsAll _ _ ss)

theorem FunDecl.perm_visitsAll (layers : List Layer) (region : Region) (r : Resolver) :
    ∀ fs : List FunDecl,
      ((FunDecl.visitsAll layers region r fs).map Visit.id).Perm (FunDecl.idsAll fs)
  | [] => .nil
  | f :: fs => by
      simp only [FunDecl.visitsAll, FunDecl.idsAll, List.map_append]
      exact (FunDecl.perm_visits _ _ _ f).append (FunDecl.perm_visitsAll _ _ _ fs)

end

end Wandika
