import Wandika.Proofs.Scope.Table
import Wandika.Proofs.Token.Lines

/-!
# The analysis of a text below another

The analysis does not look at places, and node numbers only tell it where to write into the table.
So it runs on a changed tree as it does on the tree, with its part of the table elsewhere.

* `Relabel.Plain`: the change keeps how the tokens are written;
* `Locals.record_between`: an entry of a table that is a part of a larger one;
* `Resolver.Mirrors`: the analysis of a changed tree next to the one of the tree;
* `Resolve.Follows`: a step leads from such a pair to such a pair, and does not fail;
* `resolve_append`: the analysis of two programs, one after the other.
-/

namespace Wandika

/-- The change keeps how the tokens are written. -/
def Relabel.Plain (ρ : Relabel) : Prop := ∀ t, (ρ.token t).lexeme = t.lexeme

theorem Relabel.plain_refl : Relabel.refl.Plain := fun _ => rfl

theorem Relabel.plain_down (lines offset : Nat) : (Relabel.down lines offset).Plain := fun _ => rfl

/-! ### Parts of tables -/

/-- The numbers have a place in a table of that size. -/
def InTable (size : Nat) (ids : List Int) : Prop := ∀ i ∈ ids, 0 ≤ i ∧ i < size

theorem inTable_cons {size : Nat} {i : Int} {ids : List Int} :
    InTable size (i :: ids) ↔ (0 ≤ i ∧ i < size) ∧ InTable size ids := by
  simp [InTable]

theorem inTable_append {size : Nat} {ids more : List Int} :
    InTable size (ids ++ more) ↔ InTable size ids ∧ InTable size more := by
  simp only [InTable, List.mem_append, or_imp, forall_and]
  tauto

theorem Locals.size_record {locals : Locals} {i : Int} (h : i < locals.size) (d : Nat) :
    (locals.record i d).size = locals.size := by
  unfold Locals.record
  split_ifs
  · rfl
  · simp only [Array.size_setIfInBounds, Array.size_append, Array.size_replicate]
    omega

/-- An entry of a table is one of any larger table that it is a part of. -/
theorem Locals.record_between (before after : Locals) {locals : Locals} {i : Int} (h₀ : 0 ≤ i)
    (h : i < locals.size) (d : Nat) :
    Locals.record (before ++ locals ++ after) (i + before.size) d =
      before ++ locals.record i d ++ after := by
  obtain ⟨n, rfl⟩ := Int.eq_ofNat_of_zero_le h₀
  have hn : n < locals.size := by omega
  have hneg : ¬ (n : Int) < 0 := by omega
  have hneg' : ¬ (n : Int) + before.size < 0 := by omega
  have hto : ((n : Int) + before.size).toNat = n + before.size := by omega
  have hgrow : n + 1 - locals.size = 0 := by omega
  have hgrow' : n + before.size + 1 - (before ++ locals ++ after).size = 0 := by
    simp only [Array.size_append]
    omega
  simp only [Locals.record, hneg, hneg', if_false, hto, Int.toNat_natCast, hgrow, hgrow',
    Array.replicate_zero, Array.append_empty]
  refine Array.ext_getElem? fun j => ?_
  simp only [Array.getElem?_setIfInBounds, Array.getElem?_append, Array.size_append,
    Array.size_setIfInBounds]
  by_cases hj : n + before.size = j
  · subst hj
    have hlt : before.size + n < before.size + locals.size + after.size := by omega
    simp [hn, hlt, Nat.add_comm n]
  · split_ifs <;> first | rfl | omega

/-! ### Two analyses next to each other -/

/-- The warning about a condition without an else branch, given its question mark. -/
def noElseAt (question : Option Token) : String :=
  Resolve.noElseWarning ((question.map Token.pos).getD {})

/-- Where the analysis of a changed tree stands: the size of the tree's own table, the tables before
and after it, and the warnings given before. The changed numbers begin where the own table does. -/
structure Placement extends Relabel where
  size : Nat
  before : Locals
  after : Locals
  given : List String
  plain : toRelabel.Plain
  begins : before.size = offset

/-- The analysis of a tree, and next to it the one of the changed tree: its table has the table of
the tree at its place, and it has given the same warnings for the changed tokens. -/
structure Resolver.Mirrors (π : Placement) (r r' : Resolver) : Prop where
  scopes : r'.scopes = r.scopes
  region : r'.region = r.region
  size : r.locals.size = π.size
  locals : r'.locals = π.before ++ r.locals ++ π.after
  warnings : ∃ qs : List (Option Token), r.warnings = qs.map noElseAt ∧
    r'.warnings = qs.map (noElseAt ∘ Option.map π.token) ++ π.given

section Follows

variable (π : Placement)

/-- What succeeds on the tree succeeds on the changed one, and keeps the two analyses next to each
other. -/
def Resolve.Follows (act act' : Resolve) : Prop :=
  ∀ ⦃r r' r₁ : Resolver⦄, r.Mirrors π r' → act r = .ok () r₁ →
    ∃ r₁', act' r' = .ok () r₁' ∧ r₁.Mirrors π r₁'

variable {π}

namespace Resolver.Mirrors

variable {r r' : Resolver}

theorem innermost? (h : r.Mirrors π r') (name : String) :
    r'.innermost? name = r.innermost? name := by
  simp only [Resolver.innermost?, h.scopes]

theorem put (h : r.Mirrors π r') (name : String) (ready : Bool) :
    (r.put name ready).Mirrors π (r'.put name ready) := by
  obtain ⟨scopes, locals, region, warnings⟩ := r
  obtain ⟨scopes', locals', region', warnings'⟩ := r'
  obtain rfl : scopes' = scopes := h.scopes
  cases scopes' with
  | nil => exact h
  | cons scope rest => exact ⟨rfl, h.region, h.size, h.locals, h.warnings⟩

/-- A node is entered into the part of the table that is the tree's own. -/
theorem locate (h : r.Mirrors π r')
    {i : Int} (hi : 0 ≤ i ∧ i < π.size) (name : String) :
    (r.locate i name).Mirrors π (r'.locate (i + π.offset) name) := by
  obtain ⟨scopes, locals, region, warnings⟩ := r
  obtain ⟨scopes', locals', region', warnings'⟩ := r'
  obtain rfl : scopes' = scopes := h.scopes
  obtain rfl : locals' = π.before ++ locals ++ π.after := h.locals
  have hlt : i < locals.size := h.size.symm ▸ hi.2
  unfold Resolver.locate
  cases Resolver.depth? scopes' name with
  | none => exact h
  | some d =>
    refine ⟨rfl, h.region, (Locals.size_record hlt d).trans h.size, ?_, h.warnings⟩
    rw [← π.begins]
    exact Locals.record_between π.before π.after hi.1 hlt d

end Resolver.Mirrors

namespace Resolve.Follows

variable {act act' : Resolve}

theorem nothing : Follows π (pure ()) (pure ()) := by
  intro r r' r₁ hr h
  cases h
  exact ⟨r', rfl, hr⟩

theorem bind {next next' : Resolve} (h : Follows π act act')
    (hn : Follows π next next') :
    Follows π (do act; next) (do act'; next') := by
  intro r r' r₂ hr hrun
  obtain ⟨r₁, hrun, hrun₁⟩ := ok_bind.1 hrun
  obtain ⟨r₁', hrun', hr₁⟩ := h hr hrun
  obtain ⟨r₂', hrun₁', hr₂⟩ := hn hr₁ hrun₁
  exact ⟨r₂', ok_bind.2 ⟨r₁', hrun', hrun₁'⟩, hr₂⟩

theorem update {f f' : Resolver → Resolver}
    (h : ∀ {r r' : Resolver}, r.Mirrors π r' →
      (f r).Mirrors π (f' r')) :
    Follows π (Resolve.update f) (Resolve.update f') := by
  intro r r' r₁ hr hrun
  cases hrun
  exact ⟨f' r', rfl, h hr⟩

theorem inScope (h : Follows π act act') :
    Follows π (Resolve.inScope act) (Resolve.inScope act') := by
  intro r r' r₁ hr hrun
  obtain ⟨r₂, hrun₂, rfl⟩ := ok_inScope hrun
  have hopen : Resolver.Mirrors π { r with scopes := [] :: r.scopes }
      { r' with scopes := [] :: r'.scopes } :=
    ⟨by rw [hr.scopes], hr.region, hr.size, hr.locals, hr.warnings⟩
  obtain ⟨r₂', hrun₂', hr₂⟩ := h hopen hrun₂
  refine ⟨{ r₂' with scopes := r₂'.scopes.tail }, by simp only [Resolve.inScope, hrun₂'], ?_⟩
  exact ⟨congrArg List.tail hr₂.scopes, hr₂.region, hr₂.size, hr₂.locals, hr₂.warnings⟩

theorem inRegion (region : Region) (h : Follows π act act') :
    Follows π (Resolve.inRegion region act)
      (Resolve.inRegion region act') := by
  intro r r' r₁ hr hrun
  obtain ⟨r₂, hrun₂, rfl⟩ := ok_inRegion hrun
  have henter : Resolver.Mirrors π { r with region } { r' with region } :=
    ⟨hr.scopes, rfl, hr.size, hr.locals, hr.warnings⟩
  obtain ⟨r₂', hrun₂', hr₂⟩ := h henter hrun₂
  refine ⟨{ r₂' with region := r'.region }, by simp only [Resolve.inRegion, hrun₂'], ?_⟩
  exact ⟨hr₂.scopes, hr.region, hr₂.size, hr₂.locals, hr₂.warnings⟩

/-! ### Single steps -/

theorem warnNoElse (question : Option Token) :
    Follows π (Resolve.warnNoElse question)
      (Resolve.warnNoElse (question.map π.token)) := by
  refine update fun hr => ⟨hr.scopes, hr.region, hr.size, hr.locals, ?_⟩
  obtain ⟨qs, hqs, hqs'⟩ := hr.warnings
  exact ⟨question :: qs, by simp [hqs, noElseAt], by simp [hqs', noElseAt]⟩

theorem checkReturn (keyword : Option Token) :
    Follows π (Resolve.checkReturn keyword)
      (Resolve.checkReturn (keyword.map π.token)) := by
  intro r r' r₁ hr hrun
  unfold Resolve.checkReturn at hrun ⊢
  split_ifs at hrun with hregion
  cases hrun
  exact ⟨r', by rw [if_neg (hr.region ▸ hregion)], hr⟩

section Names

variable (name : Token)

theorem declare : Follows π (Resolve.declare name)
    (Resolve.declare (π.token name)) :=
  update fun hr => π.plain name ▸ hr.put _ _

theorem define : Follows π (Resolve.define name)
    (Resolve.define (π.token name)) :=
  update fun hr => π.plain name ▸ hr.put _ _

theorem defineAll (names : List Token) : Follows π
    (Resolve.defineAll names) (Resolve.defineAll (names.map π.token)) := by
  refine update fun {r r'} hr => ?_
  induction names generalizing r r' with
  | nil => exact hr
  | cons name names ih =>
    simp only [List.map_cons, List.foldl_cons, π.plain name]
    exact ih ((hr.put _ _).put _ _)

theorem checkFresh : Follows π (Resolve.checkFresh name)
    (Resolve.checkFresh (π.token name)) := by
  intro r r' r₁ hr hrun
  unfold Resolve.checkFresh at hrun ⊢
  split_ifs at hrun with hfresh
  cases hrun
  exact ⟨r', by rw [π.plain name, hr.innermost?, if_neg hfresh], hr⟩

variable {i : Int} (hi : 0 ≤ i ∧ i < π.size)

include hi

theorem locate : Follows π
    (Resolve.update (·.locate i name.lexeme))
    (Resolve.update (·.locate (i + π.offset) (π.token name).lexeme)) :=
  update fun hr => π.plain name ▸ hr.locate hi _

theorem reference : Follows π (Resolve.reference i name)
    (Resolve.reference (i + π.offset) (π.token name)) := by
  intro r r' r₁ hr hrun
  unfold Resolve.reference at hrun ⊢
  split_ifs at hrun with hready
  cases hrun
  exact ⟨_, by rw [π.plain name, hr.innermost?, if_neg hready], hr.locate hi _⟩

end Names

end Resolve.Follows

/-! ### Trees -/

open Resolve

mutual

theorem Expr.follows : ∀ e : Expr, InTable π.size e.ids →
    Follows π (Resolve.expr e) (Resolve.expr (e.relabel π.toRelabel))
  | .assign id name value, h => by
      rw [Expr.ids, inTable_cons] at h
      exact .bind (Expr.follows value h.2) (.locate name h.1)
  | .binary _ lhs rhs, h | .logical _ lhs rhs, h => by
      rw [Expr.ids, inTable_append] at h
      exact .bind (Expr.follows lhs h.1) (Expr.follows rhs h.2)
  | .call callee _ args, h => by
      rw [Expr.ids, inTable_append] at h
      exact .bind (Expr.follows callee h.1) (Expr.followsAll args h.2)
  | .get object _, h => Expr.follows object h
  | .group inner, h => Expr.follows inner h
  | .literal _, _ => .nothing
  | .set object _ value, h => by
      rw [Expr.ids, inTable_append] at h
      exact .bind (Expr.follows value h.2) (Expr.follows object h.1)
  | .ternary cond question yes none, h => by
      rw [Expr.ids, inTable_append] at h
      exact .bind (Expr.follows cond h.1) (.bind (Expr.follows yes h.2) (.warnNoElse question))
  | .ternary cond _ yes (some no), h => by
      rw [Expr.ids, inTable_append, inTable_append] at h
      exact .bind (Expr.follows cond h.1)
        (.bind (Expr.follows yes h.2.1) (Expr.follows no h.2.2))
  | .unary _ operand, h => Expr.follows operand h
  | .variable id name, h => by
      rw [Expr.ids, inTable_cons] at h
      exact .reference name h.1

theorem Expr.followsAll : ∀ es : List Expr, InTable π.size (Expr.idsAll es) →
    Follows π (Resolve.exprs es) (Resolve.exprs (Expr.relabelAll π.toRelabel es))
  | [], _ => .nothing
  | e :: es, h => by
      rw [Expr.idsAll, inTable_append] at h
      exact .bind (Expr.follows e h.1) (Expr.followsAll es h.2)

end

mutual

theorem Stmt.follows : ∀ s : Stmt, InTable π.size s.ids →
    Follows π (Resolve.stmt s) (Resolve.stmt (s.relabel π.toRelabel))
  | .block body, h => .inScope (Stmt.followsAll body h)
  | .classDecl name methods, h =>
      .bind (.declare name) (.bind (.define name) (FunDecl.followsAll .method methods h))
  | .expr value, h | .print value, h => Expr.follows value h
  | .function (.mk name params body), h =>
      .bind (.declare name)
        (.bind (.define name) (FunDecl.follows .function (.mk name params body) h))
  | .branch cond yes none, h => by
      rw [Stmt.ids, inTable_append] at h
      exact .bind (Expr.follows cond h.1) (Stmt.follows yes h.2)
  | .branch cond yes (some no), h => by
      rw [Stmt.ids, inTable_append, inTable_append] at h
      exact .bind (Expr.follows cond h.1)
        (.bind (Stmt.follows yes h.2.1) (Stmt.follows no h.2.2))
  | .ret keyword none, _ => .checkReturn keyword
  | .ret keyword (some value), h =>
      .bind (.checkReturn keyword) (Expr.follows value h)
  | .varDecl name none, _ =>
      .bind (.checkFresh name) (.bind (.declare name) (.define name))
  | .varDecl name (some init), h =>
      .bind (.checkFresh name) (.bind (.declare name)
        (.bind (Expr.follows init h) (.define name)))
  | .loop cond body, h => by
      rw [Stmt.ids, inTable_append] at h
      exact .bind (Expr.follows cond h.1) (Stmt.follows body h.2)

theorem FunDecl.follows (region : Region) : ∀ f : FunDecl, InTable π.size f.ids →
    Follows π (Resolve.function region f)
      (Resolve.function region (f.relabel π.toRelabel))
  | .mk _ params body, h =>
      .inRegion region (.inScope (.bind (.defineAll params) (Stmt.followsAll body h)))

theorem Stmt.followsAll : ∀ ss : List Stmt, InTable π.size (Stmt.idsAll ss) →
    Follows π (Resolve.stmts ss) (Resolve.stmts (Stmt.relabelAll π.toRelabel ss))
  | [], _ => .nothing
  | s :: ss, h => by
      rw [Stmt.idsAll, inTable_append] at h
      exact .bind (Stmt.follows s h.1) (Stmt.followsAll ss h.2)

theorem FunDecl.followsAll (region : Region) : ∀ fs : List FunDecl,
    InTable π.size (FunDecl.idsAll fs) →
    Follows π (Resolve.functions region fs)
      (Resolve.functions region (FunDecl.relabelAll π.toRelabel fs))
  | [], _ => .nothing
  | f :: fs, h => by
      rw [FunDecl.idsAll, inTable_append] at h
      exact .bind (FunDecl.follows region f h.1) (FunDecl.followsAll region fs h.2)

end

end Follows

/-! ### Programs -/

theorem Resolve.ok_stmts_append {xs ys : List Stmt} {r r₁ r₂ : Resolver}
    (hx : Resolve.stmts xs r = .ok () r₁) (hy : Resolve.stmts ys r₁ = .ok () r₂) :
    Resolve.stmts (xs ++ ys) r = .ok () r₂ := by
  induction xs generalizing r with
  | nil =>
    cases hx
    exact hy
  | cons x xs ih =>
    obtain ⟨r', hr', hrest⟩ := ok_bind.1 hx
    exact ok_bind.2 ⟨r', hr', ih hrest⟩

theorem Program.resolve_of_ok {p : Program} {r : Resolver}
    (h : Resolve.stmts p.stmts { locals := Locals.blank p.nodes } = .ok () r) :
    p.resolve = ⟨r.locals, r.warnings.reverse, none⟩ := by
  simp only [Program.resolve, Resolver.resolve, h]

/-- How the analysis of a program ends that has no error: no scope is open. -/
theorem Program.ok_of_resolve {p : Program} (h : p.resolve.error? = none) :
    ∃ r, Resolve.stmts p.stmts { locals := Locals.blank p.nodes } = .ok () r ∧ r.scopes = [] ∧
      r.region = .none := by
  cases hrun : Resolve.stmts p.stmts { locals := Locals.blank p.nodes } with
  | ok _ r =>
    have ha := Stmt.analysedAll [] p.stmts hrun
    exact ⟨r, rfl, ha.scopes, ha.region⟩
  | error e r =>
    simp only [Program.resolve, Resolver.resolve, hrun] at h
    cases h

section Programs

variable {p q : Program} {ρ : Relabel}

/-- The table of a program has an entry for each of its nodes and no other. -/
theorem size_resolve (hp : p.resolve.error? = none)
    (hpids : InTable p.nodes (Stmt.idsAll p.stmts)) : p.resolve.locals.size = p.nodes := by
  obtain ⟨r, hr, -⟩ := Program.ok_of_resolve hp
  let π : Placement := ⟨.refl, p.nodes, #[], #[], [], Relabel.plain_refl, rfl⟩
  have hstart : Resolver.Mirrors π { locals := Locals.blank p.nodes }
      { locals := Locals.blank p.nodes } :=
    ⟨rfl, rfl, by simp [π, Locals.blank], by simp [π], [], rfl, rfl⟩
  obtain ⟨r', -, hmirror⟩ := Stmt.followsAll p.stmts hpids hstart hr
  rw [Program.resolve_of_ok hr]
  exact hmirror.size

/-- A program and a changed one after it, the numbers of which go on where those of the first
end. -/
def Program.append (p q : Program) (ρ : Relabel) : Program :=
  ⟨p.stmts ++ Stmt.relabelAll ρ q.stmts, q.nodes + p.nodes⟩

/-- Two programs that are analysed without an error can be put one after the other: their tables are
put one after the other, and so are the warnings. -/
theorem resolve_append (hρ : ρ.Plain) (hoffset : ρ.offset = p.nodes)
    (hp : p.resolve.error? = none) (hpids : InTable p.nodes (Stmt.idsAll p.stmts))
    (hq : q.resolve.error? = none) (hqids : InTable q.nodes (Stmt.idsAll q.stmts)) :
    (p.append q ρ).resolve.error? = none ∧
      (p.append q ρ).resolve.locals = p.resolve.locals ++ q.resolve.locals ∧
      ∃ qs : List (Option Token), q.resolve.warnings = qs.map noElseAt ∧
        (p.append q ρ).resolve.warnings =
          p.resolve.warnings ++ qs.map (noElseAt ∘ Option.map ρ.token) := by
  obtain ⟨r, hr, hscopes, hregion⟩ := Program.ok_of_resolve hp
  obtain ⟨d, hd, -, -⟩ := Program.ok_of_resolve hq
  -- the first program is analysed as it is alone, with more room in the table
  let π : Placement := ⟨.refl, p.nodes, #[], Locals.blank q.nodes, [], Relabel.plain_refl, rfl⟩
  have hstart : Resolver.Mirrors π { locals := Locals.blank p.nodes }
      { locals := Locals.blank (q.nodes + p.nodes) } :=
    ⟨rfl, rfl, by simp [π, Locals.blank],
      by simp [π, Locals.blank, Array.replicate_append_replicate, Nat.add_comm], [], rfl, rfl⟩
  obtain ⟨r', hr', hmirror⟩ := Stmt.followsAll p.stmts hpids hstart hr
  rw [Stmt.relabelAll_refl] at hr'
  -- the second one finds no open scope, and its part of the table as it would be alone
  let σ : Placement := ⟨ρ, q.nodes, r.locals, #[], r.warnings, hρ, hmirror.size.trans hoffset.symm⟩
  have hwarnings : r'.warnings = r.warnings := by
    obtain ⟨qs, hqs, hqs'⟩ := hmirror.warnings
    rw [hqs, hqs']
    simp [π]
  have hlocals : r'.locals = r.locals ++ Locals.blank q.nodes := by
    simpa [π] using hmirror.locals
  have hbetween : Resolver.Mirrors σ { locals := Locals.blank q.nodes } r' :=
    ⟨hmirror.scopes.trans hscopes, hmirror.region.trans hregion, by simp [σ, Locals.blank],
      by simpa [σ] using hlocals, [], rfl, hwarnings⟩
  obtain ⟨d', hd', hend⟩ := Stmt.followsAll q.stmts hqids hbetween hd
  obtain ⟨qs, hqs, hqs'⟩ := hend.warnings
  have hall := Program.resolve_of_ok (p := p.append q ρ) (Resolve.ok_stmts_append hr' hd')
  rw [hall, Program.resolve_of_ok hr, Program.resolve_of_ok hd]
  refine ⟨rfl, by simpa [σ] using hend.locals, qs.reverse, ?_, ?_⟩
  · simp [hqs]
  · simp [hqs', σ]

end Programs

end Wandika
