import Wandika.Proofs.Parser.Order
import Wandika.Proofs.Scope.Table

/-!
# Lexical scoping, told by places in the text

What the analysis of scopes has to find out is said here without it: an area declares a name before
a place of the text if one of its declarations of that name stands before the place.

* `Stmt.declarations`, `Area.declarations`: the declarations of an area, which may stand under
  conditions and loops but in no area inside it;
* `Area.Declares`: a name is declared before a place;
* `Mark`, `Site`, `Stmt.sites`: the returns, variable declarations and variable nodes of a tree, each
  with the areas around it, in the order of the analysis;
* `entryFor`: the entry of a node in the table;
* `Site.violation?`: the rule that is broken at a site;
* `Stmt.perm_sites`: every node has one site.
-/

namespace Wandika

/-! ### Declarations -/

/-- The names that a statement declares in the area it stands in, as they stand in the text. -/
def Stmt.declarations : Stmt → List Token
  | .classDecl name _ => [name]
  | .function decl => [decl.name]
  | .varDecl name _ => [name]
  | .branch _ yes none => yes.declarations
  | .branch _ yes (some no) => yes.declarations ++ no.declarations
  | .loop _ body => body.declarations
  | .block _ | .expr _ | .print _ | .ret _ _ => []

/-- The parameters of an area and the names that its statements declare in it. -/
def Area.declarations (a : Area) : List Token :=
  a.params ++ a.body.flatMap Stmt.declarations

/-- The area declares the name before the place where it stands. -/
def Area.Declares (a : Area) (name : Token) : Prop :=
  ∃ d ∈ a.declarations, d.lexeme = name.lexeme ∧ d.Before name

instance (a : Area) (name : Token) : Decidable (a.Declares name) :=
  inferInstanceAs (Decidable (∃ d ∈ a.declarations, d.lexeme = name.lexeme ∧ d.Before name))

/-- Whether the area is a function or a method. -/
def Area.isCall : Area → Bool
  | .block _ => false
  | .call _ => true

/-- The entry of a node with the name in the table: the number of areas between the node and the
innermost one that declares the name before it. -/
def entryFor (areas : List Area) (name : Token) : Int :=
  match areas.findIdx? (fun a => decide (a.Declares name)) with
  | some d => d
  | none => globalDistance

/-! ### Sites -/

/-- What stands at a site: a return, the declaration of a variable, or a variable node. -/
inductive Mark
  | returns (keyword : Option Token)
  | declares (name : Token)
  | reads (id : Int) (name : Token)
  | assigns (id : Int) (name : Token)

/-- A mark, the areas around it from the innermost outwards, and the variable in whose initialiser
it stands. -/
structure Site where
  mark : Mark
  areas : List Area
  initialises : Option Token := none

mutual

/-- The marks of an expression. The value of a property assignment comes before its object. -/
def Expr.marks : Expr → List Mark
  | .assign id name value => value.marks ++ [.assigns id name]
  | .binary _ lhs rhs => lhs.marks ++ rhs.marks
  | .call callee _ args => callee.marks ++ Expr.marksAll args
  | .get object _ => object.marks
  | .group inner => inner.marks
  | .literal _ => []
  | .logical _ lhs rhs => lhs.marks ++ rhs.marks
  | .set object _ value => value.marks ++ object.marks
  | .ternary cond _ yes none => cond.marks ++ yes.marks
  | .ternary cond _ yes (some no) => cond.marks ++ (yes.marks ++ no.marks)
  | .unary _ operand => operand.marks
  | .variable id name => [.reads id name]

/-- The marks of several expressions. -/
def Expr.marksAll : List Expr → List Mark
  | [] => []
  | e :: es => e.marks ++ Expr.marksAll es

end

/-- The sites of an expression. -/
def Expr.sites (areas : List Area) (initialises : Option Token) (e : Expr) : List Site :=
  e.marks.map (⟨·, areas, initialises⟩)

mutual

/-- The sites of a statement inside the areas. -/
def Stmt.sites (areas : List Area) : Stmt → List Site
  | .block body => Stmt.sitesAll (.block body :: areas) body
  | .classDecl _ methods => FunDecl.sitesAll areas methods
  | .expr value => value.sites areas none
  | .function decl => decl.sites areas
  | .branch cond yes none => cond.sites areas none ++ yes.sites areas
  | .branch cond yes (some no) => cond.sites areas none ++ (yes.sites areas ++ no.sites areas)
  | .print value => value.sites areas none
  | .ret keyword none => [⟨.returns keyword, areas, none⟩]
  | .ret keyword (some value) => ⟨.returns keyword, areas, none⟩ :: value.sites areas none
  | .varDecl name none => [⟨.declares name, areas, none⟩]
  | .varDecl name (some init) => ⟨.declares name, areas, none⟩ :: init.sites areas (some name)
  | .loop cond body => cond.sites areas none ++ body.sites areas

/-- The sites of a function. -/
def FunDecl.sites (areas : List Area) : FunDecl → List Site
  | .mk name params body => Stmt.sitesAll (.call (.mk name params body) :: areas) body

/-- The sites of several statements. -/
def Stmt.sitesAll (areas : List Area) : List Stmt → List Site
  | [] => []
  | s :: ss => s.sites areas ++ Stmt.sitesAll areas ss

/-- The sites of several functions. -/
def FunDecl.sitesAll (areas : List Area) : List FunDecl → List Site
  | [] => []
  | f :: fs => f.sites areas ++ FunDecl.sitesAll areas fs

end

/-- The sites of a program. -/
def Program.sites (p : Program) : List Site :=
  Stmt.sitesAll [] p.stmts

/-- The number and the name of a variable node. -/
def Site.node? (s : Site) : Option (Int × Token) :=
  match s.mark with
  | .reads id name | .assigns id name => some (id, name)
  | .returns _ | .declares _ => none

/-! ### The static rules -/

/-- A return outside of every function and method. -/
def Site.returnsFromTop (s : Site) : Bool := s.areas.all (!·.isCall)

/-- The area around the site has declared the name before. -/
def Site.redeclares (s : Site) (name : Token) : Bool :=
  s.areas.head?.any fun a => decide (a.Declares name)

/-- The site stands inside an area, in the initialiser of a variable of that name. -/
def Site.readsOwnInitialiser (s : Site) (name : Token) : Bool :=
  !s.areas.isEmpty && s.initialises.any (·.lexeme = name.lexeme)

/-- The error for the rule that is broken at a site. -/
def Site.violation? (s : Site) : Option ScopeError :=
  match s.mark with
  | .returns keyword => if s.returnsFromTop then some ⟨keyword, .topLevelReturn⟩ else none
  | .declares name => if s.redeclares name then some ⟨name, .redeclared⟩ else none
  | .reads _ name => if s.readsOwnInitialiser name then some ⟨name, .ownInitializer⟩ else none
  | .assigns _ _ => none

/-! ### Declarations are names -/

theorem Stmt.declarations_subset : ∀ s : Stmt, s.declarations ⊆ s.names
  | .classDecl name _ => by simp [Stmt.declarations, Stmt.names]
  | .function (.mk name params body) => by
      simp [Stmt.declarations, Stmt.names, FunDecl.names, FunDecl.name]
  | .varDecl name none | .varDecl name (some _) => by simp [Stmt.declarations, Stmt.names]
  | .branch cond yes none => by
      rw [Stmt.declarations, Stmt.names]
      exact List.subset_append_of_subset_right _ yes.declarations_subset
  | .branch cond yes (some no) => by
      rw [Stmt.declarations, Stmt.names]
      exact List.subset_append_of_subset_right _ (List.append_subset.2
        ⟨List.subset_append_of_subset_left _ yes.declarations_subset,
          List.subset_append_of_subset_right _ no.declarations_subset⟩)
  | .loop cond body => by
      rw [Stmt.declarations, Stmt.names]
      exact List.subset_append_of_subset_right _ body.declarations_subset
  | .block _ | .expr _ | .print _ | .ret _ _ => by simp [Stmt.declarations]

theorem Stmt.declarationsAll_subset (ss : List Stmt) :
    ss.flatMap Stmt.declarations ⊆ Stmt.namesAll ss := by
  induction ss with
  | nil => simp
  | cons s ss ih =>
    rw [List.flatMap_cons, Stmt.namesAll]
    exact List.append_subset.2 ⟨List.subset_append_of_subset_left _ s.declarations_subset,
      List.subset_append_of_subset_right _ ih⟩

/-! ### Every node once -/

/-- The numbers of the nodes among the sites. -/
def Site.ids (sites : List Site) : List Int :=
  (sites.filterMap Site.node?).map Prod.fst

@[simp] theorem Site.ids_append (xs ys : List Site) : ids (xs ++ ys) = ids xs ++ ids ys := by
  simp [ids]

theorem Site.ids_cons_other {s : Site} (h : s.node? = none) (sites : List Site) :
    ids (s :: sites) = ids sites := by
  simp [ids, h]

section Perm

variable (areas : List Area) (init : Option Token)

theorem Site.ids_exprs (marks more : List Mark) :
    ids ((marks ++ more).map (⟨·, areas, init⟩)) =
      ids (marks.map (⟨·, areas, init⟩)) ++ ids (more.map (⟨·, areas, init⟩)) := by
  rw [List.map_append, ids_append]

mutual

theorem Expr.perm_sites : ∀ e : Expr, (Site.ids (e.sites areas init)).Perm e.ids
  | .assign id name value => by
      simp only [Expr.sites, Expr.marks, Expr.ids, Site.ids_exprs]
      exact (List.perm_append_singleton id _).trans ((Expr.perm_sites value).cons id)
  | .binary _ lhs rhs | .logical _ lhs rhs => by
      simp only [Expr.sites, Expr.marks, Expr.ids, Site.ids_exprs]
      exact (Expr.perm_sites lhs).append (Expr.perm_sites rhs)
  | .call callee _ args => by
      simp only [Expr.sites, Expr.marks, Expr.ids, Site.ids_exprs]
      exact (Expr.perm_sites callee).append (Expr.perm_sitesAll args)
  | .get object _ => Expr.perm_sites object
  | .group inner => Expr.perm_sites inner
  | .literal _ => .nil
  | .set object _ value => by
      simp only [Expr.sites, Expr.marks, Expr.ids, Site.ids_exprs]
      exact List.perm_append_comm.trans ((Expr.perm_sites object).append (Expr.perm_sites value))
  | .ternary cond _ yes none => by
      simp only [Expr.sites, Expr.marks, Expr.ids, Site.ids_exprs]
      exact (Expr.perm_sites cond).append (Expr.perm_sites yes)
  | .ternary cond _ yes (some no) => by
      simp only [Expr.sites, Expr.marks, Expr.ids, Site.ids_exprs]
      exact (Expr.perm_sites cond).append ((Expr.perm_sites yes).append (Expr.perm_sites no))
  | .unary _ operand => Expr.perm_sites operand
  | .variable id name => .refl _

theorem Expr.perm_sitesAll : ∀ es : List Expr,
    (Site.ids ((Expr.marksAll es).map (⟨·, areas, init⟩))).Perm (Expr.idsAll es)
  | [] => .nil
  | e :: es => by
      simp only [Expr.marksAll, Expr.idsAll, Site.ids_exprs]
      exact (Expr.perm_sites e).append (Expr.perm_sitesAll es)

end

end Perm

mutual

theorem Stmt.perm_sites (areas : List Area) : ∀ s : Stmt, (Site.ids (s.sites areas)).Perm s.ids
  | .block body => Stmt.perm_sitesAll _ body
  | .classDecl _ methods => FunDecl.perm_sitesAll _ methods
  | .expr value | .print value => Expr.perm_sites _ _ value
  | .function decl => FunDecl.perm_sites _ decl
  | .branch cond yes none => by
      simp only [Stmt.sites, Stmt.ids, Site.ids_append]
      exact (Expr.perm_sites _ _ cond).append (Stmt.perm_sites _ yes)
  | .branch cond yes (some no) => by
      simp only [Stmt.sites, Stmt.ids, Site.ids_append]
      exact (Expr.perm_sites _ _ cond).append
        ((Stmt.perm_sites _ yes).append (Stmt.perm_sites _ no))
  | .ret _ none | .varDecl _ none => .nil
  | .ret _ (some value) => Expr.perm_sites _ _ value
  | .varDecl _ (some init) => Expr.perm_sites _ _ init
  | .loop cond body => by
      simp only [Stmt.sites, Stmt.ids, Site.ids_append]
      exact (Expr.perm_sites _ _ cond).append (Stmt.perm_sites _ body)

theorem FunDecl.perm_sites (areas : List Area) :
    ∀ f : FunDecl, (Site.ids (f.sites areas)).Perm f.ids
  | .mk _ _ body => Stmt.perm_sitesAll _ body

/-- Every variable node has one site. -/
theorem Stmt.perm_sitesAll (areas : List Area) :
    ∀ ss : List Stmt, (Site.ids (Stmt.sitesAll areas ss)).Perm (Stmt.idsAll ss)
  | [] => .nil
  | s :: ss => by
      simp only [Stmt.sitesAll, Stmt.idsAll, Site.ids_append]
      exact (Stmt.perm_sites _ s).append (Stmt.perm_sitesAll _ ss)

theorem FunDecl.perm_sitesAll (areas : List Area) :
    ∀ fs : List FunDecl, (Site.ids (FunDecl.sitesAll areas fs)).Perm (FunDecl.idsAll fs)
  | [] => .nil
  | f :: fs => by
      simp only [FunDecl.sitesAll, FunDecl.idsAll, Site.ids_append]
      exact (FunDecl.perm_sites _ f).append (FunDecl.perm_sitesAll _ fs)

end

end Wandika
