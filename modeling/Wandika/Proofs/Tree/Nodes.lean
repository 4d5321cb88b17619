import Wandika.Proofs.Tree.Names

/-!
# The variable nodes of a tree

* `Expr.nodes`, `Stmt.nodes`, `FunDecl.nodes`: the variables and assignments of a tree from left to
  right, each with its number and the name it carries;
* `Stmt.ids_nodesAll`: their numbers are the numbers of the tree;
* `Stmt.carriesAll`: their names are names of the tree, in the same order.
-/

namespace Wandika

mutual

/-- The variable nodes of an expression. -/
def Expr.nodes : Expr → List (Int × Token)
  | .assign id name value => (id, name) :: value.nodes
  | .binary _ lhs rhs => lhs.nodes ++ rhs.nodes
  | .call callee _ args => callee.nodes ++ Expr.nodesAll args
  | .get object _ => object.nodes
  | .group inner => inner.nodes
  | .literal _ => []
  | .logical _ lhs rhs => lhs.nodes ++ rhs.nodes
  | .set object _ value => object.nodes ++ value.nodes
  | .ternary cond _ yes none => cond.nodes ++ yes.nodes
  | .ternary cond _ yes (some no) => cond.nodes ++ (yes.nodes ++ no.nodes)
  | .unary _ operand => operand.nodes
  | .variable id name => [(id, name)]

/-- The variable nodes of several expressions. -/
def Expr.nodesAll : List Expr → List (Int × Token)
  | [] => []
  | e :: es => e.nodes ++ Expr.nodesAll es

end

mutual

/-- The variable nodes of a statement. -/
def Stmt.nodes : Stmt → List (Int × Token)
  | .block body => Stmt.nodesAll body
  | .classDecl _ methods => FunDecl.nodesAll methods
  | .expr value => value.nodes
  | .function decl => decl.nodes
  | .branch cond yes none => cond.nodes ++ yes.nodes
  | .branch cond yes (some no) => cond.nodes ++ (yes.nodes ++ no.nodes)
  | .print value => value.nodes
  | .ret _ none => []
  | .ret _ (some value) => value.nodes
  | .varDecl _ none => []
  | .varDecl _ (some init) => init.nodes
  | .loop cond body => cond.nodes ++ body.nodes

/-- The variable nodes of a function. -/
def FunDecl.nodes : FunDecl → List (Int × Token)
  | .mk _ _ body => Stmt.nodesAll body

/-- The variable nodes of several statements. -/
def Stmt.nodesAll : List Stmt → List (Int × Token)
  | [] => []
  | s :: ss => s.nodes ++ Stmt.nodesAll ss

/-- The variable nodes of several functions. -/
def FunDecl.nodesAll : List FunDecl → List (Int × Token)
  | [] => []
  | f :: fs => f.nodes ++ FunDecl.nodesAll fs

end

/-! ### Numbers -/

mutual

theorem Expr.ids_nodes : ∀ e : Expr, e.nodes.map Prod.fst = e.ids
  | .assign _ _ value => by simp [Expr.nodes, Expr.ids, Expr.ids_nodes value]
  | .binary _ lhs rhs | .logical _ lhs rhs => by
      simp [Expr.nodes, Expr.ids, Expr.ids_nodes lhs, Expr.ids_nodes rhs]
  | .call callee _ args => by
      simp [Expr.nodes, Expr.ids, Expr.ids_nodes callee, Expr.ids_nodesAll args]
  | .get object _ => Expr.ids_nodes object
  | .group inner => Expr.ids_nodes inner
  | .literal _ | .variable _ _ => rfl
  | .set object _ value => by
      simp [Expr.nodes, Expr.ids, Expr.ids_nodes object, Expr.ids_nodes value]
  | .ternary cond _ yes none => by
      simp [Expr.nodes, Expr.ids, Expr.ids_nodes cond, Expr.ids_nodes yes]
  | .ternary cond _ yes (some no) => by
      simp [Expr.nodes, Expr.ids, Expr.ids_nodes cond, Expr.ids_nodes yes, Expr.ids_nodes no]
  | .unary _ operand => Expr.ids_nodes operand

theorem Expr.ids_nodesAll : ∀ es : List Expr, (Expr.nodesAll es).map Prod.fst = Expr.idsAll es
  | [] => rfl
  | e :: es => by simp [Expr.nodesAll, Expr.idsAll, Expr.ids_nodes e, Expr.ids_nodesAll es]

end

mutual

theorem Stmt.ids_nodes : ∀ s : Stmt, s.nodes.map Prod.fst = s.ids
  | .block body => Stmt.ids_nodesAll body
  | .classDecl _ methods => FunDecl.ids_nodesAll methods
  | .expr value | .print value | .ret _ (some value) | .varDecl _ (some value) =>
      Expr.ids_nodes value
  | .function decl => FunDecl.ids_nodes decl
  | .branch cond yes none => by simp [Stmt.nodes, Stmt.ids, Expr.ids_nodes, Stmt.ids_nodes yes]
  | .branch cond yes (some no) => by
      simp [Stmt.nodes, Stmt.ids, Expr.ids_nodes, Stmt.ids_nodes yes, Stmt.ids_nodes no]
  | .ret _ none | .varDecl _ none => rfl
  | .loop cond body => by simp [Stmt.nodes, Stmt.ids, Expr.ids_nodes, Stmt.ids_nodes body]

theorem FunDecl.ids_nodes : ∀ f : FunDecl, f.nodes.map Prod.fst = f.ids
  | .mk _ _ body => Stmt.ids_nodesAll body

/-- The numbers of the variable nodes, from left to right. -/
theorem Stmt.ids_nodesAll : ∀ ss : List Stmt, (Stmt.nodesAll ss).map Prod.fst = Stmt.idsAll ss
  | [] => rfl
  | s :: ss => by simp [Stmt.nodesAll, Stmt.idsAll, Stmt.ids_nodes s, Stmt.ids_nodesAll ss]

theorem FunDecl.ids_nodesAll : ∀ fs : List FunDecl,
    (FunDecl.nodesAll fs).map Prod.fst = FunDecl.idsAll fs
  | [] => rfl
  | f :: fs => by
      simp [FunDecl.nodesAll, FunDecl.idsAll, FunDecl.ids_nodes f, FunDecl.ids_nodesAll fs]

end

/-! ### Names -/

/-- The names that the nodes carry are among the names, in the same order. -/
def Carries (nodes : List (Int × Token)) (names : List Token) : Prop :=
  (nodes.map Prod.snd).Sublist names

namespace Carries

variable {nodes more : List (Int × Token)} {names others : List Token}

theorem append (h : Carries nodes names) (h' : Carries more others) :
    Carries (nodes ++ more) (names ++ others) := by
  unfold Carries at *
  rw [List.map_append]
  exact List.Sublist.append h h'

theorem skip (h : Carries nodes names) (name : Token) : Carries nodes (name :: names) :=
  List.Sublist.cons name h

theorem skipAll (h : Carries nodes names) (others : List Token) :
    Carries nodes (others ++ names) :=
  List.Sublist.trans h (List.sublist_append_right others names)

theorem extend (h : Carries nodes names) (others : List Token) :
    Carries nodes (names ++ others) :=
  List.Sublist.trans h (List.sublist_append_left names others)

theorem node (h : Carries nodes names) (id : Int) (name : Token) :
    Carries ((id, name) :: nodes) (name :: names) :=
  List.Sublist.cons_cons name h

end Carries

mutual

theorem Expr.carries : ∀ e : Expr, Carries e.nodes e.names
  | .assign id name value => (Expr.carries value).node id name
  | .binary _ lhs rhs | .logical _ lhs rhs => (Expr.carries lhs).append (Expr.carries rhs)
  | .call callee _ args => (Expr.carries callee).append (Expr.carriesAll args)
  | .get object name => (Expr.carries object).extend [name]
  | .group inner => Expr.carries inner
  | .literal _ => List.Sublist.refl _
  | .set object name value => (Expr.carries object).append ((Expr.carries value).skip name)
  | .ternary cond _ yes none => (Expr.carries cond).append (Expr.carries yes)
  | .ternary cond _ yes (some no) =>
      (Expr.carries cond).append ((Expr.carries yes).append (Expr.carries no))
  | .unary _ operand => Expr.carries operand
  | .variable id name => Carries.node (List.Sublist.refl _) id name

theorem Expr.carriesAll : ∀ es : List Expr, Carries (Expr.nodesAll es) (Expr.namesAll es)
  | [] => List.Sublist.refl _
  | e :: es => (Expr.carries e).append (Expr.carriesAll es)

end

mutual

theorem Stmt.carries : ∀ s : Stmt, Carries s.nodes s.names
  | .block body => Stmt.carriesAll body
  | .classDecl name methods => (FunDecl.carriesAll methods).skip name
  | .expr value | .print value | .ret _ (some value) => Expr.carries value
  | .function decl => FunDecl.carries decl
  | .branch cond yes none => (Expr.carries cond).append (Stmt.carries yes)
  | .branch cond yes (some no) =>
      (Expr.carries cond).append ((Stmt.carries yes).append (Stmt.carries no))
  | .ret _ none => List.Sublist.refl _
  | .varDecl name none => List.nil_sublist [name]
  | .varDecl name (some init) => (Expr.carries init).skip name
  | .loop cond body => (Expr.carries cond).append (Stmt.carries body)

theorem FunDecl.carries : ∀ f : FunDecl, Carries f.nodes f.names
  | .mk name params body => ((Stmt.carriesAll body).skipAll params).skip name

/-- The names of the variable nodes are names of the tree, from left to right. -/
theorem Stmt.carriesAll : ∀ ss : List Stmt, Carries (Stmt.nodesAll ss) (Stmt.namesAll ss)
  | [] => List.Sublist.refl _
  | s :: ss => (Stmt.carries s).append (Stmt.carriesAll ss)

theorem FunDecl.carriesAll : ∀ fs : List FunDecl,
    Carries (FunDecl.nodesAll fs) (FunDecl.namesAll fs)
  | [] => List.Sublist.refl _
  | f :: fs => (FunDecl.carries f).append (FunDecl.carriesAll fs)

end

end Wandika
