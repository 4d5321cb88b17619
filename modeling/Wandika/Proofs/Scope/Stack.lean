import Wandika.Proofs.Scope.Table

/-!
# The open scopes are a stack

Scopes are opened and closed in pairs, and names are only entered into the innermost one. This holds
of every step of the analysis, also of one that stops with an error in the midst of nested blocks and
functions.

* `SamePlace`: the scopes and the kind of body are the same as before;
* `Stacked`: what a step may do to the scopes at most, given the names it declares;
* `Resolve.Still`, `Resolve.Keeps`: steps that do no more than that, however they end;
* `Expr.still`, `Stmt.keeps`: expressions are of the first sort, statements of the second;
* `Resolver.resolutions`: one program after another, analysed by one resolver;
* `scopes_stacked`: the discipline for all statements and expressions, and what it means for
  programs.
-/

namespace Wandika

open Resolve

/-! ### Steps that leave the scopes alone -/

/-- The scopes and the kind of body are the same as before. -/
structure SamePlace (r r' : Resolver) : Prop where
  scopes : r'.scopes = r.scopes
  region : r'.region = r.region

theorem SamePlace.refl (r : Resolver) : SamePlace r r := ⟨rfl, rfl⟩

theorem SamePlace.trans {r r₁ r₂ : Resolver} (h : SamePlace r r₁) (h' : SamePlace r₁ r₂) :
    SamePlace r r₂ :=
  ⟨h'.scopes.trans h.scopes, h'.region.trans h.region⟩

theorem Resolver.samePlace_locate (r : Resolver) (id : Int) (name : String) :
    SamePlace r (r.locate id name) := by
  unfold Resolver.locate
  split
  · exact ⟨rfl, rfl⟩
  · exact .refl r

/-- The step changes neither the scopes nor the kind of body, however it ends. -/
def Resolve.Still (act : Resolve) : Prop :=
  ∀ r, SamePlace r (after act r)

namespace Resolve.Still

variable {act next : Resolve}

theorem nothing : Still (pure ()) := SamePlace.refl

theorem bind (h : Still act) (hn : Still next) : Still (do act; next) := by
  intro r
  rcases after_bind_cases act next r with hstop | ⟨r₁, hact, hgo⟩
  · rw [hstop]
    exact h r
  · rw [hgo]
    exact (after_of_ok hact ▸ h r).trans (hn r₁)

theorem inRegion (region : Region) (h : Still act) : Still (Resolve.inRegion region act) := by
  intro r
  rw [after_inRegion]
  exact ⟨(h { r with region }).scopes, rfl⟩

theorem warnNoElse (question : Option Token) : Still (Resolve.warnNoElse question) :=
  fun _ => ⟨rfl, rfl⟩

theorem checkReturn (keyword : Option Token) : Still (Resolve.checkReturn keyword) := by
  intro r
  unfold after Resolve.checkReturn
  split_ifs <;> exact .refl r

theorem checkFresh (name : Token) : Still (Resolve.checkFresh name) := by
  intro r
  unfold after Resolve.checkFresh
  split_ifs <;> exact .refl r

theorem locate (id : Int) (name : String) : Still (Resolve.update (·.locate id name)) :=
  fun r => r.samePlace_locate id name

theorem reference (id : Int) (name : Token) : Still (Resolve.reference id name) := by
  intro r
  unfold after Resolve.reference
  split_ifs
  · exact .refl r
  · exact r.samePlace_locate id name.lexeme

end Resolve.Still

mutual

/-- Expressions open no scope and declare nothing. -/
theorem Expr.still : ∀ e : Expr, Still (Resolve.expr e)
  | .assign id name value => .bind (Expr.still value) (.locate id name.lexeme)
  | .binary _ lhs rhs | .logical _ lhs rhs => .bind (Expr.still lhs) (Expr.still rhs)
  | .call callee _ args => .bind (Expr.still callee) (Expr.stillAll args)
  | .get object _ => Expr.still object
  | .group inner => Expr.still inner
  | .literal _ => .nothing
  | .set object _ value => .bind (Expr.still value) (Expr.still object)
  | .ternary cond question yes none =>
      .bind (Expr.still cond) (.bind (Expr.still yes) (.warnNoElse question))
  | .ternary cond _ yes (some no) =>
      .bind (Expr.still cond) (.bind (Expr.still yes) (Expr.still no))
  | .unary _ operand => Expr.still operand
  | .variable id name => .reference id name

theorem Expr.stillAll : ∀ es : List Expr, Still (Resolve.exprs es)
  | [] => .nothing
  | e :: es => .bind (Expr.still e) (Expr.stillAll es)

end

/-! ### Steps that declare names -/

/-- What becomes of the open scopes when names are declared: there are as many as before, those
around the innermost have not changed, and the innermost has kept its names and has come to hold at
most the declared ones. The kind of body is the same. -/
structure Stacked (declared : List String) (r r' : Resolver) : Prop where
  height : r'.scopes.length = r.scopes.length
  outer : r'.scopes.tail = r.scopes.tail
  kept : ∀ x, (r.innermost? x).isSome → (r'.innermost? x).isSome
  gained : ∀ x, (r'.innermost? x).isSome → (r.innermost? x).isSome ∨ x ∈ declared
  region : r'.region = r.region

/-- The scope that many scopes out holds the name, which is not ready to be read. -/
def Resolver.Pending (r : Resolver) (depth : Nat) (name : String) : Prop :=
  ∃ scope, r.scopes[depth]? = some scope ∧ Bindings.get? scope name = some false

section Stacked

variable {xs ys : List String} {r r₁ r₂ : Resolver}

theorem SamePlace.stacked (h : SamePlace r r₁) : Stacked xs r r₁ := by
  have hinner : ∀ x, r₁.innermost? x = r.innermost? x := by
    intro x
    simp only [Resolver.innermost?, h.scopes]
  exact ⟨by rw [h.scopes], by rw [h.scopes], fun x hx => by rwa [hinner],
    fun x hx => .inl (by rwa [hinner] at hx), h.region⟩

theorem Stacked.trans (h : Stacked xs r r₁) (h' : Stacked ys r₁ r₂) :
    Stacked (xs ++ ys) r r₂ where
  height := h'.height.trans h.height
  outer := h'.outer.trans h.outer
  kept x hx := h'.kept x (h.kept x hx)
  gained x hx := by
    rcases h'.gained x hx with hx | hx
    · exact (h.gained x hx).imp_right (List.mem_append_left ys)
    · exact .inr (List.mem_append_right xs hx)
  region := h'.region.trans h.region

theorem Stacked.mono (h : Stacked xs r r₁) (hs : xs ⊆ ys) : Stacked ys r r₁ :=
  { h with gained := fun x hx => (h.gained x hx).imp_right fun hx => hs hx }

theorem Resolver.stacked_put (r : Resolver) (name : String) (ready : Bool) :
    Stacked [name] r (r.put name ready) := by
  obtain ⟨scopes, locals, region, warnings⟩ := r
  cases scopes with
  | nil => exact (SamePlace.refl _).stacked
  | cons scope rest =>
    refine ⟨rfl, rfl, ?_, ?_, rfl⟩
    · intro x hx
      simp only [Resolver.put, Resolver.innermost?, Bindings.get?_put] at hx ⊢
      split_ifs
      · rfl
      · exact hx
    · intro x hx
      simp only [Resolver.put, Resolver.innermost?, Bindings.get?_put] at hx ⊢
      split_ifs at hx with he
      · exact .inr (List.mem_singleton.2 he)
      · exact .inl hx

theorem SamePlace.pending (h : SamePlace r r₁) {depth : Nat} {x : String}
    (hx : r₁.Pending depth x) : r.Pending depth x := by
  unfold Resolver.Pending at *
  rwa [← h.scopes]

/-- A name is pending because it was just declared, or it is another one and was pending before. -/
theorem Resolver.Pending.of_put {name x : String} {ready : Bool} {depth : Nat}
    (h : (r.put name ready).Pending depth x) :
    (depth = 0 ∧ x = name) ∧ ready = false ∨ ¬(depth = 0 ∧ x = name) ∧ r.Pending depth x := by
  obtain ⟨scopes, locals, region, warnings⟩ := r
  obtain ⟨scope', hscope, hget⟩ := h
  cases scopes with
  | nil => cases hscope
  | cons scope rest =>
    cases depth with
    | zero =>
      cases hscope
      rw [Bindings.get?_put] at hget
      split_ifs at hget with he
      · cases hget
        exact .inl ⟨⟨rfl, he⟩, rfl⟩
      · exact .inr ⟨fun h => he h.2, scope, rfl, hget⟩
    | succ depth => exact .inr ⟨by simp, scope', hscope, hget⟩

/-- A name that is declared and then defined is not pending, nor has another one become so. -/
theorem Resolver.Pending.of_defined {name x : String} {depth : Nat}
    (hs : SamePlace (r.put name false) r₁) (h : (r₁.put name true).Pending depth x) :
    r.Pending depth x := by
  rcases h.of_put with ⟨-, hready⟩ | ⟨hother, h⟩
  · cases hready
  · rcases (hs.pending h).of_put with ⟨hname, -⟩ | ⟨-, h⟩
    · exact absurd hname hother
    · exact h

end Stacked

/-- However the step ends, it has done to the scopes what the declared names allow. If it succeeds,
no name is pending that was not so before. -/
structure Resolve.Keeps (declared : List String) (act : Resolve) : Prop where
  stacked : ∀ r, Stacked declared r (after act r)
  ready : ∀ {r r' : Resolver}, act r = .ok () r' →
    ∀ {depth x}, r'.Pending depth x → r.Pending depth x

theorem Resolve.Still.keeps {act : Resolve} (h : Still act) : Keeps [] act where
  stacked r := (h r).stacked
  ready {r _} hact _ _ hx := (after_of_ok hact ▸ h r).pending hx

namespace Resolve.Keeps

variable {act next : Resolve} {xs ys : List String}

theorem bind (h : Keeps xs act) (hn : Keeps ys next) : Keeps (xs ++ ys) (do act; next) where
  stacked r := by
    rcases after_bind_cases act next r with hstop | ⟨r₁, hact, hgo⟩
    · rw [hstop]
      exact (h.stacked r).mono (List.subset_append_left xs ys)
    · rw [hgo]
      exact (after_of_ok hact ▸ h.stacked r).trans (hn.stacked r₁)
  ready hrun _ _ hx := by
    obtain ⟨r₁, hact, hnext⟩ := ok_bind.1 hrun
    exact h.ready hact (hn.ready hnext hx)

/-- The scope of the step is gone, however it ends. -/
theorem inScope (h : Keeps xs act) : Still (Resolve.inScope act) := by
  intro r
  rw [after_inScope]
  have hbody := h.stacked { r with scopes := [] :: r.scopes }
  exact ⟨hbody.outer, hbody.region⟩

/-- A name that is declared before a step and defined after it. If the step fails, the name is left
in the innermost scope and stays pending. -/
theorem initialised (name : Token) (h : Still act) :
    Keeps [name.lexeme] (do Resolve.declare name; act; Resolve.define name) where
  stacked r := by
    show Stacked _ r (after (do act; Resolve.define name) (r.put name.lexeme false))
    have hput := r.stacked_put name.lexeme false
    have hact : Stacked [] (r.put name.lexeme false) (after act (r.put name.lexeme false)) :=
      h.keeps.stacked _
    rcases after_bind_cases act (Resolve.define name) (r.put name.lexeme false) with
      hstop | ⟨r₁, hok, hgo⟩
    · rw [hstop]
      exact hput.trans hact
    · rw [after_of_ok hok] at hact
      rw [hgo]
      exact (hput.trans (hact.trans (r₁.stacked_put name.lexeme true))).mono (by simp)
  ready hrun _ _ hx := by
    obtain ⟨r₁, hdeclare, hrun⟩ := ok_bind.1 hrun
    obtain ⟨r₂, hact, hdefine⟩ := ok_bind.1 hrun
    cases hdeclare
    cases hdefine
    -- from the first entry of the name to the second one, no scope changes
    exact Resolver.Pending.of_defined (after_of_ok hact ▸ h _) hx

theorem declareDefine (name : Token) :
    Keeps [name.lexeme] (do Resolve.declare name; Resolve.define name) :=
  initialised name .nothing

/-- A name that is defined at once, before a step that leaves the scopes alone. -/
theorem named (name : Token) (hn : Still next) :
    Keeps [name.lexeme] (do Resolve.declare name; Resolve.define name; next) := by
  have h := (declareDefine name).bind hn.keeps
  rwa [List.append_nil] at h

theorem defineAll (names : List Token) :
    Keeps (names.map Token.lexeme) (Resolve.defineAll names) := by
  induction names with
  | nil => exact Still.nothing.keeps
  | cons name names ih => exact (declareDefine name).bind ih

end Resolve.Keeps

mutual

/-- Statements enter no names but those that they declare. -/
theorem Stmt.keeps : ∀ s : Stmt, Keeps s.declared (Resolve.stmt s)
  | .block body => (Stmt.keepsAll body).inScope.keeps
  | .classDecl name methods => .named name (FunDecl.stillAll .method methods)
  | .expr value | .print value => (Expr.still value).keeps
  | .function decl => .named decl.name (FunDecl.still .function decl)
  | .branch cond yes none => (Expr.still cond).keeps.bind (Stmt.keeps yes)
  | .branch cond yes (some no) =>
      (Expr.still cond).keeps.bind ((Stmt.keeps yes).bind (Stmt.keeps no))
  | .ret keyword none => (Still.checkReturn keyword).keeps
  | .ret keyword (some value) => ((Still.checkReturn keyword).bind (Expr.still value)).keeps
  | .varDecl name none => (Still.checkFresh name).keeps.bind (.declareDefine name)
  | .varDecl name (some init) =>
      (Still.checkFresh name).keeps.bind (.initialised name (Expr.still init))
  | .loop cond body => (Expr.still cond).keeps.bind (Stmt.keeps body)

/-- The names of a function are entered into a scope of its own. -/
theorem FunDecl.still (region : Region) : ∀ f : FunDecl, Still (Resolve.function region f)
  | .mk _ params body =>
      .inRegion region ((Keeps.defineAll params).bind (Stmt.keepsAll body)).inScope

theorem Stmt.keepsAll : ∀ ss : List Stmt, Keeps (ss.flatMap Stmt.declared) (Resolve.stmts ss)
  | [] => Still.nothing.keeps
  | s :: ss => (Stmt.keeps s).bind (Stmt.keepsAll ss)

theorem FunDecl.stillAll (region : Region) :
    ∀ fs : List FunDecl, Still (Resolve.functions region fs)
  | [] => .nothing
  | f :: fs => .bind (FunDecl.still region f) (FunDecl.stillAll region fs)

end

/-! ### Programs -/

namespace Resolver

/-- No scope is open, and no function or method is around. -/
structure Idle (r : Resolver) : Prop where
  scopes : r.scopes = []
  region : r.region = .none

/-- The state in which the analysis of a program begins. -/
def begun (r : Resolver) (p : Program) : Resolver :=
  { r with locals := Locals.blank p.nodes, warnings := [] }

/-- The state in which it ends, with the table, the warnings and, if it failed, all that was left
behind. -/
def ended (r : Resolver) (p : Program) : Resolver :=
  after (Resolve.stmts p.stmts) (r.begun p)

/-- What one resolver gives for one program after another. -/
def resolutions : Resolver → List Program → List Resolution
  | _, [] => []
  | r, p :: ps => (r.resolve p).1 :: (r.resolve p).2.resolutions ps

namespace Idle

variable {r : Resolver}

/-- A program leaves no scope open, however its analysis ends. -/
theorem ended (h : r.Idle) (p : Program) : (r.ended p).Idle := by
  have hstacked := (Stmt.keepsAll p.stmts).stacked (r.begun p)
  refine ⟨List.length_eq_zero_iff.1 ?_, hstacked.region.trans h.region⟩
  rw [Resolver.ended, hstacked.height, begun, h.scopes]
  rfl

/-- An idle resolver goes on as the analysis leaves it: there is nothing to drop but the warnings,
which were handed out. -/
theorem resolve_snd (h : r.Idle) (p : Program) :
    (r.resolve p).2 = { r.ended p with warnings := [] } := by
  have hdropped : (r.resolve p).2 = { locals := (r.ended p).locals } := by
    unfold Resolver.resolve Resolver.ended after begun
    dsimp only
    cases Resolve.stmts p.stmts { r with locals := Locals.blank p.nodes, warnings := [] } <;> rfl
  rw [hdropped, ← (h.ended p).scopes, ← (h.ended p).region]

/-- An idle resolver gives what a fresh one gives. -/
theorem resolve_fst (h : r.Idle) (p : Program) : (r.resolve p).1 = p.resolve := by
  obtain ⟨scopes, locals, region, warnings⟩ := r
  obtain rfl : scopes = [] := h.scopes
  obtain rfl : region = .none := h.region
  rfl

theorem resolutions_eq (h : r.Idle) (ps : List Program) :
    r.resolutions ps = ps.map Program.resolve := by
  induction ps generalizing r with
  | nil => rfl
  | cons p ps ih =>
    have hidle : (r.resolve p).2.Idle := by
      rw [h.resolve_snd]
      exact ⟨(h.ended p).scopes, (h.ended p).region⟩
    rw [resolutions, List.map_cons, h.resolve_fst, ih hidle]

end Idle

end Resolver

/-- The open scopes are a stack. Whatever state the analysis of a statement begins in and however it
ends, as many scopes are open as before, and nothing has changed in those around the innermost; the
innermost has kept its names and has come to hold none but those that the statement declares outside
of nested blocks and functions; the kind of body is the same; and if the analysis succeeds, no name
is pending that was not so before. Expressions change no scope at all. So a program that begins with
no scope open ends with none, and one resolver gives for every program, also after such as it
rejected, what a fresh one gives. -/
theorem scopes_stacked :
    (∀ (s : Stmt) (r : Resolver),
      Stacked s.declared r (after (Resolve.stmt s) r) ∧
      ∀ r', Resolve.stmt s r = .ok () r' → ∀ depth x, r'.Pending depth x → r.Pending depth x) ∧
    (∀ (e : Expr) (r : Resolver), SamePlace r (after (Resolve.expr e) r)) ∧
    (∀ (p : Program) (r : Resolver), r.Idle → (r.ended p).Idle) ∧
    ∀ ps : List Program, Resolver.resolutions {} ps = ps.map Program.resolve := by
  refine ⟨fun s r => ⟨s.keeps.stacked r, ?_⟩, Expr.still, fun p r h => h.ended p, ?_⟩
  · intro r' hrun depth x hx
    exact s.keeps.ready hrun hx
  · exact Resolver.Idle.resolutions_eq ⟨rfl, rfl⟩

/-- A function whose body reads a variable too early is rejected inside two scopes of its own. Its
name, which was pending, is then ready, as it is after a function that is accepted, while another name
further out is still pending. After the rejected program, a return at the top is rejected too, and a
good program is accepted. -/
theorem scopes_stacked_after_rejection :
    ∃ (f b : Token) (s t : Stmt) (r r' : Resolver),
      s = .function (.mk f [] [.block [.varDecl b (some (.variable 0 b))]]) ∧
      t = .function (.mk f [] [.block [.varDecl b none]]) ∧
      r.scopes = [[("f", false)], [("g", false)]] ∧ r'.scopes = [[("f", true)], [("g", false)]] ∧
      Resolve.stmt s r = .error ⟨b, .ownInitializer⟩ r' ∧ Stacked ["f"] r r' ∧
      Resolve.stmt t r = .ok () r' ∧ r'.Pending 1 "g" ∧ r.Pending 1 "g" ∧
      (Resolver.ended {} ⟨[s], 1⟩).Idle ∧
      (Resolver.resolutions {} [⟨[s], 1⟩, ⟨[.ret none none], 0⟩, ⟨[t], 0⟩]).map
          (fun x => x.error?.map ScopeError.cause) =
        [some .ownInitializer, some .topLevelReturn, none] := by
  let f : Token := { kind := .identifier, lexeme := "f", pos := ⟨1, 6⟩ }
  let b : Token := { kind := .identifier, lexeme := "b", pos := ⟨1, 16⟩ }
  let s : Stmt := .function (.mk f [] [.block [.varDecl b (some (.variable 0 b))]])
  let t : Stmt := .function (.mk f [] [.block [.varDecl b none]])
  let r : Resolver := { scopes := [[("f", false)], [("g", false)]] }
  let r' : Resolver := { scopes := [[("f", true)], [("g", false)]] }
  have hs : Resolve.stmt s r = .error ⟨b, .ownInitializer⟩ r' := by rfl
  have ht : Resolve.stmt t r = .ok () r' := by rfl
  have hpending : r'.Pending 1 "g" := ⟨[("g", false)], rfl, rfl⟩
  obtain ⟨hstmt, -, hidle, hall⟩ := scopes_stacked
  have hstacked : Stacked ["f"] r r' := after_of_error hs ▸ (hstmt s r).1
  refine ⟨f, b, s, t, r, r', rfl, rfl, rfl, rfl, hs, hstacked, ht, hpending,
    (hstmt t r).2 r' ht 1 "g" hpending, hidle _ {} ⟨rfl, rfl⟩, ?_⟩
  rw [hall]
  rfl

end Wandika
