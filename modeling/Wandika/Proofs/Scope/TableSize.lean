import Wandika.Proofs.Scope.Relabelled

/-!
# The size of the table

The analysis begins with a table that has an entry for every node the program was counted to have.
It enters no other node, so the table keeps its size, also when the analysis stops at an error.

* `Resolve.Sized`: a step keeps a table of the size;
* `Resolver.size_resolve`: the table of a program has the size it began with.
-/

namespace Wandika

/-- However the step ends, a table of the size has kept its size. -/
def Resolve.Sized (size : Nat) (act : Resolve) : Prop :=
  ∀ r : Resolver, r.locals.size = size →
    match act r with
    | .ok _ r' | .error _ r' => r'.locals.size = size

namespace Resolve.Sized

variable {size : Nat} {act next : Resolve}

theorem iff_after : Sized size act ↔
    ∀ r : Resolver, r.locals.size = size → (after act r).locals.size = size := by
  refine forall_congr' fun r => imp_congr_right fun _ => ?_
  unfold after
  cases act r <;> rfl

theorem nothing : Sized size (pure ()) := fun _ h => h

theorem bind (h : Sized size act) (hn : Sized size next) : Sized size (do act; next) := by
  rw [iff_after] at h hn ⊢
  intro r hr
  rcases after_bind_cases act next r with hstop | ⟨r₁, hact, hgo⟩
  · rw [hstop]
    exact h r hr
  · rw [hgo]
    exact hn r₁ (after_of_ok hact ▸ h r hr)

theorem update {f : Resolver → Resolver} (h : ∀ r : Resolver, r.locals.size = size →
    (f r).locals.size = size) : Sized size (Resolve.update f) := h

theorem inScope (h : Sized size act) : Sized size (Resolve.inScope act) := by
  rw [iff_after] at h ⊢
  intro r hr
  rw [after_inScope]
  exact h _ hr

theorem inRegion (region : Region) (h : Sized size act) :
    Sized size (Resolve.inRegion region act) := by
  rw [iff_after] at h ⊢
  intro r hr
  rw [after_inRegion]
  exact h _ hr

/-! ### Single steps -/

theorem warnNoElse (question : Option Token) : Sized size (Resolve.warnNoElse question) :=
  update fun _ h => h

theorem checkReturn (keyword : Option Token) : Sized size (Resolve.checkReturn keyword) := by
  intro r hr
  unfold Resolve.checkReturn
  split_ifs <;> exact hr

theorem checkFresh (name : Token) : Sized size (Resolve.checkFresh name) := by
  intro r hr
  unfold Resolve.checkFresh
  split_ifs <;> exact hr

theorem declare (name : Token) : Sized size (Resolve.declare name) :=
  update fun r h => by rwa [r.locals_put]

theorem define (name : Token) : Sized size (Resolve.define name) :=
  update fun r h => by rwa [r.locals_put]

theorem defineAll (names : List Token) : Sized size (Resolve.defineAll names) := by
  refine update fun r hr => ?_
  induction names generalizing r with
  | nil => exact hr
  | cons name names ih => exact ih _ (by simpa using hr)

theorem size_locate {r : Resolver} {i : Int} (hi : i < r.locals.size) (name : String) :
    (r.locate i name).locals.size = r.locals.size := by
  unfold Resolver.locate
  split
  · exact Locals.size_record hi _
  · rfl

/-- A node that has a place in the table does not make it grow. -/
theorem locate {i : Int} (hi : 0 ≤ i ∧ i < size) (name : String) :
    Sized size (Resolve.update (·.locate i name)) :=
  update fun _ hr => (size_locate (hr.symm ▸ hi.2) name).trans hr

theorem reference {i : Int} (hi : 0 ≤ i ∧ i < size) (name : Token) :
    Sized size (Resolve.reference i name) := by
  intro r hr
  unfold Resolve.reference
  split_ifs
  · exact hr
  · exact (size_locate (hr.symm ▸ hi.2) name.lexeme).trans hr

end Resolve.Sized

/-! ### Trees -/

open Resolve

variable {size : Nat}

mutual

theorem Expr.sized : ∀ e : Expr, InTable size e.ids → Sized size (Resolve.expr e)
  | .assign id name value, h => by
      rw [Expr.ids, inTable_cons] at h
      exact .bind (Expr.sized value h.2) (.locate h.1 name.lexeme)
  | .binary _ lhs rhs, h | .logical _ lhs rhs, h => by
      rw [Expr.ids, inTable_append] at h
      exact .bind (Expr.sized lhs h.1) (Expr.sized rhs h.2)
  | .call callee _ args, h => by
      rw [Expr.ids, inTable_append] at h
      exact .bind (Expr.sized callee h.1) (Expr.sizedAll args h.2)
  | .get object _, h => Expr.sized object h
  | .group inner, h => Expr.sized inner h
  | .literal _, _ => .nothing
  | .set object _ value, h => by
      rw [Expr.ids, inTable_append] at h
      exact .bind (Expr.sized value h.2) (Expr.sized object h.1)
  | .ternary cond question yes none, h => by
      rw [Expr.ids, inTable_append] at h
      exact .bind (Expr.sized cond h.1) (.bind (Expr.sized yes h.2) (.warnNoElse question))
  | .ternary cond _ yes (some no), h => by
      rw [Expr.ids, inTable_append, inTable_append] at h
      exact .bind (Expr.sized cond h.1) (.bind (Expr.sized yes h.2.1) (Expr.sized no h.2.2))
  | .unary _ operand, h => Expr.sized operand h
  | .variable id name, h => by
      rw [Expr.ids, inTable_cons] at h
      exact .reference h.1 name

theorem Expr.sizedAll : ∀ es : List Expr, InTable size (Expr.idsAll es) →
    Sized size (Resolve.exprs es)
  | [], _ => .nothing
  | e :: es, h => by
      rw [Expr.idsAll, inTable_append] at h
      exact .bind (Expr.sized e h.1) (Expr.sizedAll es h.2)

end

mutual

theorem Stmt.sized : ∀ s : Stmt, InTable size s.ids → Sized size (Resolve.stmt s)
  | .block body, h => .inScope (Stmt.sizedAll body h)
  | .classDecl name methods, h =>
      .bind (.declare name) (.bind (.define name) (FunDecl.sizedAll .method methods h))
  | .expr value, h | .print value, h => Expr.sized value h
  | .function decl, h =>
      .bind (.declare decl.name)
        (.bind (.define decl.name) (FunDecl.sized .function decl h))
  | .branch cond yes none, h => by
      rw [Stmt.ids, inTable_append] at h
      exact .bind (Expr.sized cond h.1) (Stmt.sized yes h.2)
  | .branch cond yes (some no), h => by
      rw [Stmt.ids, inTable_append, inTable_append] at h
      exact .bind (Expr.sized cond h.1) (.bind (Stmt.sized yes h.2.1) (Stmt.sized no h.2.2))
  | .ret keyword none, _ => .checkReturn keyword
  | .ret keyword (some value), h => .bind (.checkReturn keyword) (Expr.sized value h)
  | .varDecl name none, _ => .bind (.checkFresh name) (.bind (.declare name) (.define name))
  | .varDecl name (some init), h =>
      .bind (.checkFresh name) (.bind (.declare name) (.bind (Expr.sized init h) (.define name)))
  | .loop cond body, h => by
      rw [Stmt.ids, inTable_append] at h
      exact .bind (Expr.sized cond h.1) (Stmt.sized body h.2)

theorem FunDecl.sized (region : Region) : ∀ f : FunDecl, InTable size f.ids →
    Sized size (Resolve.function region f)
  | .mk _ params body, h =>
      .inRegion region (.inScope (.bind (.defineAll params) (Stmt.sizedAll body h)))

theorem Stmt.sizedAll : ∀ ss : List Stmt, InTable size (Stmt.idsAll ss) →
    Sized size (Resolve.stmts ss)
  | [], _ => .nothing
  | s :: ss, h => by
      rw [Stmt.idsAll, inTable_append] at h
      exact .bind (Stmt.sized s h.1) (Stmt.sizedAll ss h.2)

theorem FunDecl.sizedAll (region : Region) : ∀ fs : List FunDecl,
    InTable size (FunDecl.idsAll fs) → Sized size (Resolve.functions region fs)
  | [], _ => .nothing
  | f :: fs, h => by
      rw [FunDecl.idsAll, inTable_append] at h
      exact .bind (FunDecl.sized region f h.1) (FunDecl.sizedAll region fs h.2)

end

/-- The table of a program whose nodes all have a place in it never grows, whatever the analysis
has done before and however it ends. -/
theorem Resolver.size_resolve (r : Resolver) {p : Program}
    (h : InTable p.nodes (Stmt.idsAll p.stmts)) : (r.resolve p).1.locals.size = p.nodes := by
  have hsized := Stmt.sizedAll p.stmts h { r with locals := Locals.blank p.nodes, warnings := [] }
    (by simp [Locals.blank])
  unfold Resolver.resolve
  dsimp only
  cases hrun : Resolve.stmts p.stmts { r with locals := Locals.blank p.nodes, warnings := [] } with
  | ok a r₁ =>
    rw [hrun] at hsized
    exact hsized
  | error e r₁ =>
    rw [hrun] at hsized
    exact hsized

end Wandika
