import Wandika.Proofs.Scope.Sites

/-!
# The analysis finds lexical scoping

One walk over a tree settles both what the analysis enters into the table and what it rejects. The
walk keeps for every open scope which declarations of its area it has met: those that stand before
all names that are still ahead.

* `Tracks`, `Tracking`: what the open scopes hold in the midst of a walk;
* `Resolve.Meets`: a step reports the first rule that is broken at its sites, or else has entered
  all of its nodes into the table;
* `Stmt.meets`: every statement does so;
* `table_lexical`: the table of a program holds the distances of lexical scoping;
* `rejects_first_violation`: a program is rejected at the first site that breaks a rule.
-/

namespace Wandika

/-! ### What the scopes hold -/

/-- The scope of an area holds the names of the declarations `met`. They stand before the names
`ahead`; the other declarations of the area are among `own`, or stand after the names `ahead`. -/
structure Tracks (scope : Scope) (a : Area) (met own ahead : List Token) : Prop where
  names : ∀ x, x ∈ Bindings.names scope ↔ x ∈ met.map Token.lexeme
  met_subset : met ⊆ a.declarations
  own_subset : own ⊆ a.declarations
  before : ∀ d ∈ met, ∀ t ∈ ahead, d.Before t
  rest : ∀ d ∈ a.declarations, d ∈ met ∨ d ∈ own ∨ ∀ t ∈ ahead, ¬ d.Before t

/-- The open scopes belong to the areas. What comes next has the names `ahead` and declares `own` in
the innermost area, and nothing in the others. -/
def Tracking (own ahead : List Token) : List Scope → List Area → Prop
  | [], areas => areas = []
  | scope :: scopes, areas => ∃ a outer, areas = a :: outer ∧
      (∃ met, Tracks scope a met own ahead) ∧
      List.Forall₂ (fun s b => ∃ met, Tracks s b met [] ahead) scopes outer

/-- All names are ready to be read. -/
def Ready (scopes : List Scope) : Prop :=
  ∀ scope ∈ scopes, ∀ x, Bindings.get? scope x ≠ some false

section Tracking

variable {scope : Scope} {scopes scopes' : List Scope} {a : Area} {areas : List Area}
  {met own own' ahead ahead' : List Token}

/-- A scope knows a name exactly if its area declares it before the place. -/
theorem Tracks.has_iff (h : Tracks scope a met own ahead) {t : Token} (ht : t ∈ ahead)
    (hown : ∀ d ∈ own, ¬ d.Before t) : Bindings.has scope t.lexeme = true ↔ a.Declares t := by
  rw [Bindings.has_eq_true, h.names, List.mem_map]
  constructor
  · rintro ⟨d, hd, he⟩
    exact ⟨d, h.met_subset hd, he, h.before d hd t ht⟩
  · rintro ⟨d, hd, he, hb⟩
    rcases h.rest d hd with hm | ho | hn
    · exact ⟨d, hm, he⟩
    · exact absurd hb (hown d ho)
    · exact absurd hb (hn t ht)

/-- What comes next lies inside what came next before, and the scope has come to hold some of the
own names. -/
theorem Tracks.step {scope' : Scope} (new : List Token) (h : Tracks scope a met own ahead)
    (hs : ∀ x, x ∈ Bindings.names scope' ↔ x ∈ Bindings.names scope ∨ x ∈ new.map Token.lexeme)
    (hnew : new ⊆ own) (hown' : own' ⊆ own) (hahead : ahead' ⊆ ahead)
    (hbefore : ∀ d ∈ new, ∀ t ∈ ahead', d.Before t)
    (hrest : ∀ d ∈ own, d ∈ new ∨ d ∈ own' ∨ ∀ t ∈ ahead', ¬ d.Before t) :
    Tracks scope' a (met ++ new) own' ahead' where
  names x := by rw [hs, h.names, List.map_append, List.mem_append]
  met_subset := List.append_subset.2 ⟨h.met_subset, List.Subset.trans hnew h.own_subset⟩
  own_subset := List.Subset.trans hown' h.own_subset
  before d hd t ht := by
    rcases List.mem_append.1 hd with hd | hd
    · exact h.before d hd t (hahead ht)
    · exact hbefore d hd t ht
  rest d hd := by
    rcases h.rest d hd with hm | ho | hn
    · exact Or.inl (List.mem_append_left _ hm)
    · exact (hrest d ho).imp_left (List.mem_append_right _)
    · exact Or.inr (Or.inr fun t ht => hn t (hahead ht))

theorem Tracks.outer (h : Tracks scope a met [] ahead) (hahead : ahead' ⊆ ahead) :
    Tracks scope a met [] ahead' := by
  have : Tracks scope a (met ++ []) [] ahead' :=
    h.step [] (by simp) (List.Subset.refl _) (List.Subset.refl _) hahead (by simp) (by simp)
  rwa [List.append_nil] at this

theorem Tracking.step (new : List Token) (h : Tracking own ahead scopes areas)
    (he : Extended (new.map Token.lexeme) scopes scopes')
    (hnew : new ⊆ own) (hown' : own' ⊆ own) (hahead : ahead' ⊆ ahead)
    (hbefore : ∀ d ∈ new, ∀ t ∈ ahead', d.Before t)
    (hrest : ∀ d ∈ own, d ∈ new ∨ d ∈ own' ∨ ∀ t ∈ ahead', ¬ d.Before t) :
    Tracking own' ahead' scopes' areas := by
  cases scopes with
  | nil =>
    cases he
    exact h
  | cons scope scopes =>
    obtain ⟨scope', rfl, hs⟩ := he
    obtain ⟨a, outer, rfl, ⟨met, hin⟩, hout⟩ := h
    exact ⟨a, outer, rfl, ⟨_, hin.step new hs hnew hown' hahead hbefore hrest⟩,
      hout.imp fun s b hs => hs.imp fun met ht => ht.outer hahead⟩

/-- What comes next is a part of what came next before, and nothing has been declared. -/
theorem Tracking.narrow (h : Tracking own ahead scopes areas) (hown' : own' ⊆ own)
    (hahead : ahead' ⊆ ahead)
    (hrest : ∀ d ∈ own, d ∈ own' ∨ ∀ t ∈ ahead', ¬ d.Before t) :
    Tracking own' ahead' scopes areas :=
  h.step [] (Extended.refl _) (List.nil_subset _) hown' hahead (by simp)
    fun d hd => Or.inr (hrest d hd)

/-- A new area has not met any of its declarations. -/
theorem Tracking.enter (h : Tracking [] ahead scopes areas) (a : Area) (hahead : ahead' ⊆ ahead) :
    Tracking a.declarations ahead' ([] :: scopes) (a :: areas) := by
  refine ⟨a, areas, rfl, ⟨[], ⟨by simp [Bindings.names], List.nil_subset _,
    List.Subset.refl _, by simp, fun d hd => Or.inr (Or.inl hd)⟩⟩, ?_⟩
  cases scopes with
  | nil =>
    cases h
    exact .nil
  | cons scope scopes =>
    obtain ⟨a', outer, rfl, ⟨met, hin⟩, hout⟩ := h
    exact .cons ⟨met, hin.outer hahead⟩
      (hout.imp fun s b hs => hs.imp fun met ht => ht.outer hahead)

/-- The depth of a name among the scopes is its depth among the areas. -/
theorem Tracking.depth (h : Tracking own ahead scopes areas) {t : Token} (ht : t ∈ ahead)
    (hown : ∀ d ∈ own, ¬ d.Before t) :
    Resolver.depth? scopes t.lexeme = areas.findIdx? fun a => decide (a.Declares t) := by
  have outer : ∀ {scopes : List Scope} {areas : List Area},
      List.Forall₂ (fun s b => ∃ met, Tracks s b met [] ahead) scopes areas →
      scopes.findIdx? (Bindings.has · t.lexeme) =
        areas.findIdx? fun a => decide (a.Declares t) := by
    intro scopes areas hs
    induction hs with
    | nil => rfl
    | cons hin _ ih =>
      obtain ⟨met, hin⟩ := hin
      rw [List.findIdx?_cons, List.findIdx?_cons, ih,
        Bool.eq_iff_iff.2 ((hin.has_iff ht (by simp)).trans decide_eq_true_iff.symm)]
  cases scopes with
  | nil =>
    cases h
    rfl
  | cons scope scopes =>
    obtain ⟨a, rest, rfl, ⟨met, hin⟩, hout⟩ := h
    rw [Resolver.depth?, List.findIdx?_cons, List.findIdx?_cons, outer hout,
      Bool.eq_iff_iff.2 ((hin.has_iff ht hown).trans decide_eq_true_iff.symm)]

end Tracking

/-! ### Steps that meet their sites -/

/-- The table after the node of a site, if it has one. -/
def Locals.place (locals : Locals) (s : Site) : Locals :=
  match s.node? with
  | some (id, name) =>
      match s.areas.findIdx? (fun a => decide (a.Declares name)) with
      | some d => locals.record id d
      | none => locals
  | none => locals

/-- The step reports the first rule that is broken at its sites. If there is none, it has entered
the nodes among them into the table and has left scopes as `post` says. -/
def Resolve.Meets (act : Resolve) (r : Resolver) (sites : List Site)
    (post : List Scope → Prop) : Prop :=
  match act r with
  | .ok _ r' => sites.findSome? Site.violation? = none ∧
      r'.locals = sites.foldl Locals.place r.locals ∧ r'.region = r.region ∧ post r'.scopes
  | .error e _ => sites.findSome? Site.violation? = some e

namespace Resolve.Meets

variable {act : Resolve} {r : Resolver} {sites more : List Site} {post post' : List Scope → Prop}

theorem cases (h : Meets act r sites post) :
    (∃ r', act r = .ok () r' ∧ sites.findSome? Site.violation? = none ∧
      r'.locals = sites.foldl Locals.place r.locals ∧ r'.region = r.region ∧ post r'.scopes) ∨
    ∃ e r', act r = .error e r' ∧ sites.findSome? Site.violation? = some e := by
  unfold Meets at h
  cases hrun : act r with
  | ok _ r' =>
    rw [hrun] at h
    exact Or.inl ⟨r', rfl, h⟩
  | error e r' =>
    rw [hrun] at h
    exact Or.inr ⟨e, r', rfl, h⟩

theorem passed {r' : Resolver} (hrun : act r = .ok () r')
    (hv : sites.findSome? Site.violation? = none)
    (hl : r'.locals = sites.foldl Locals.place r.locals) (hr : r'.region = r.region)
    (hp : post r'.scopes) : Meets act r sites post := by
  unfold Meets
  rw [hrun]
  exact ⟨hv, hl, hr, hp⟩

theorem rejected {r' : Resolver} {e : ScopeError} (hrun : act r = .error e r')
    (hv : sites.findSome? Site.violation? = some e) : Meets act r sites post := by
  unfold Meets
  rw [hrun]
  exact hv

theorem mono (h : Meets act r sites post) (hp : ∀ scopes, post scopes → post' scopes) :
    Meets act r sites post' := by
  obtain ⟨r', hrun, hv, hl, hr, hs⟩ | ⟨e, r', hrun, hv⟩ := h.cases
  · exact passed hrun hv hl hr (hp _ hs)
  · exact rejected hrun hv

theorem bind {next : Unit → Resolve} (h : Meets act r sites post)
    (hn : ∀ r₁ : Resolver, r₁.region = r.region → post r₁.scopes →
      Meets (next ()) r₁ more post') :
    Meets (act >>= next) r (sites ++ more) post' := by
  obtain ⟨r₁, hrun, hv, hl, hr, hs⟩ | ⟨e, r₁, hrun, hv⟩ := h.cases
  · have hstep : (act >>= next) r = next () r₁ := by
      show EStateM.bind act next r = _
      rw [EStateM.bind, hrun]
    obtain ⟨r₂, hrun', hv', hl', hr', hs'⟩ | ⟨e, r₂, hrun', hv'⟩ := (hn r₁ hr hs).cases
    · refine passed (hstep.trans hrun') ?_ ?_ (hr'.trans hr) hs'
      · rw [List.findSome?_append, hv, hv']
        rfl
      · rw [List.foldl_append, ← hl, hl']
    · refine rejected (hstep.trans hrun') ?_
      rw [List.findSome?_append, hv, hv']
      rfl
  · have hstop : (act >>= next) r = .error e r₁ := by
      show EStateM.bind act next r = _
      rw [EStateM.bind, hrun]
    refine rejected hstop ?_
    rw [List.findSome?_append, hv]
    rfl

/-- A step that only changes scopes. -/
theorem update {f : Resolver → Resolver} (hl : (f r).locals = r.locals)
    (hr : (f r).region = r.region) (hp : post (f r).scopes) :
    Meets (Resolve.update f) r [] post :=
  ⟨rfl, hl, hr, hp⟩

theorem nothing (hp : post r.scopes) : Meets (pure ()) r [] post :=
  ⟨rfl, rfl, rfl, hp⟩

theorem inScope (h : Meets act { r with scopes := [] :: r.scopes } sites post)
    (hp : ∀ scopes, post scopes → post' scopes.tail) :
    Meets (Resolve.inScope act) r sites post' := by
  obtain ⟨r', hrun, hv, hl, hr, hs⟩ | ⟨e, r', hrun, hv⟩ := h.cases
  · have hclosed : Resolve.inScope act r = .ok () { r' with scopes := r'.scopes.tail } := by
      rw [Resolve.inScope, hrun]
    exact passed hclosed hv hl hr (hp _ hs)
  · have hclosed : Resolve.inScope act r = .error e { r' with scopes := r'.scopes.tail } := by
      rw [Resolve.inScope, hrun]
    exact rejected hclosed hv

theorem inRegion {region : Region} (h : Meets act { r with region } sites post) :
    Meets (Resolve.inRegion region act) r sites post := by
  obtain ⟨r', hrun, hv, hl, hr, hs⟩ | ⟨e, r', hrun, hv⟩ := h.cases
  · have hleft : Resolve.inRegion region act r = .ok () { r' with region := r.region } := by
      rw [Resolve.inRegion, hrun]
    exact passed hleft hv hl rfl hs
  · have hleft : Resolve.inRegion region act r = .error e { r' with region := r.region } := by
      rw [Resolve.inRegion, hrun]
    exact rejected hleft hv

end Resolve.Meets

open Resolve (Meets)

/-! ### Expressions -/

/-- What the analysis of an expression needs to know about the scopes: they tell the depth of its
names, and the variable that is being initialised is the only one that is not ready. -/
structure Reading (areas : List Area) (init : Option Token) (scopes : List Scope)
    (names : List Token) : Prop where
  depth : ∀ t ∈ names,
    Resolver.depth? scopes t.lexeme = areas.findIdx? fun a => decide (a.Declares t)
  pending : ∀ x, (scopes.head?.bind (Bindings.get? · x) = some false ↔
    areas ≠ [] ∧ ∃ v ∈ init, v.lexeme = x)

theorem Reading.subset {areas : List Area} {init : Option Token} {scopes : List Scope}
    {names names' : List Token} (h : Reading areas init scopes names) (hs : names' ⊆ names) :
    Reading areas init scopes names' :=
  ⟨fun t ht => h.depth t (hs ht), h.pending⟩

theorem Resolver.innermost?_eq (r : Resolver) (x : String) :
    r.innermost? x = r.scopes.head?.bind (Bindings.get? · x) := by
  unfold Resolver.innermost?
  split <;> simp [*]

section Expressions

variable {areas : List Area} {init : Option Token} {r : Resolver}

/-- The entry of one node. -/
theorem locals_locate {id : Int} {name : Token} {s : Site} (hs : s.node? = some (id, name))
    (h : Resolver.depth? r.scopes name.lexeme =
      s.areas.findIdx? fun a => decide (a.Declares name)) :
    (r.locate id name.lexeme).locals = r.locals.place s ∧
      (r.locate id name.lexeme).region = r.region ∧
      (r.locate id name.lexeme).scopes = r.scopes := by
  unfold Resolver.locate Locals.place
  rw [hs, h]
  dsimp only
  cases s.areas.findIdx? fun a => decide (a.Declares name) <;> exact ⟨rfl, rfl, rfl⟩

theorem meets_reference {id : Int} {name : Token} (h : Reading areas init r.scopes [name]) :
    Meets (Resolve.reference id name) r [⟨.reads id name, areas, init⟩] (· = r.scopes) := by
  have hiff : (r.innermost? name.lexeme = some false) ↔
      Site.readsOwnInitialiser ⟨.reads id name, areas, init⟩ name = true := by
    rw [Resolver.innermost?_eq, h.pending]
    simp [Site.readsOwnInitialiser, Option.any_eq_true]
  unfold Meets Resolve.reference
  by_cases hpend : r.innermost? name.lexeme = some false
  · rw [if_pos hpend]
    simp [Site.violation?, hiff.1 hpend]
  · rw [if_neg hpend]
    obtain ⟨hl, hr, hsc⟩ := locals_locate (s := ⟨.reads id name, areas, init⟩) rfl
      (h.depth name (by simp))
    have hv : Site.readsOwnInitialiser ⟨.reads id name, areas, init⟩ name = false := by
      simpa using fun hv => hpend (hiff.2 hv)
    exact ⟨by simp [Site.violation?, hv], hl, hr, hsc⟩

/-- A part of an expression after another one. -/
theorem meets_then {act : Resolve} {next : Unit → Resolve} {sites more : List Site}
    {names : List Token} (hread : Reading areas init r.scopes names)
    (h : Reading areas init r.scopes names → Meets act r sites (· = r.scopes))
    (hn : ∀ r₁ : Resolver, Reading areas init r₁.scopes names →
      Meets (next ()) r₁ more (· = r₁.scopes)) :
    Meets (act >>= next) r (sites ++ more) (· = r.scopes) :=
  (h hread).bind fun r₁ _ hs =>
    (hn r₁ (hs ▸ hread)).mono fun _ he => he.trans hs

end Expressions

mutual

/-- The analysis of an expression meets its sites. -/
theorem Expr.meets (areas : List Area) (init : Option Token) : ∀ (e : Expr) {r : Resolver},
    Reading areas init r.scopes e.names →
    Meets (Resolve.expr e) r (e.sites areas init) (· = r.scopes)
  | .assign id name value, r, h => by
      rw [Resolve.expr, Expr.sites, Expr.marks, List.map_append]
      refine meets_then h (fun h => Expr.meets areas init value (h.subset ?_)) fun r₁ h => ?_
      · simp [Expr.names]
      · obtain ⟨hl, hr, hsc⟩ := locals_locate (s := ⟨.assigns id name, areas, init⟩) rfl
          (h.depth name (by simp [Expr.names]))
        exact ⟨rfl, hl, hr, hsc⟩
  | .binary _ lhs rhs, r, h | .logical _ lhs rhs, r, h => by
      rw [Resolve.expr, Expr.sites, Expr.marks, List.map_append]
      exact meets_then h (fun h => Expr.meets areas init lhs (h.subset (by simp [Expr.names])))
        fun r₁ h => Expr.meets areas init rhs (h.subset (by simp [Expr.names]))
  | .call callee _ args, r, h => by
      rw [Resolve.expr, Expr.sites, Expr.marks, List.map_append]
      exact meets_then h (fun h => Expr.meets areas init callee (h.subset (by simp [Expr.names])))
        fun r₁ h => Expr.meetsAll areas init args (h.subset (by simp [Expr.names]))
  | .get object _, r, h =>
      Expr.meets areas init object (h.subset (by simp [Expr.names]))
  | .group inner, r, h => Expr.meets areas init inner h
  | .literal _, r, h => .nothing rfl
  | .set object _ value, r, h => by
      rw [Resolve.expr, Expr.sites, Expr.marks, List.map_append]
      refine meets_then h (fun h => Expr.meets areas init value (h.subset ?_)) fun r₁ h =>
        Expr.meets areas init object (h.subset (by simp [Expr.names]))
      rw [Expr.names]
      exact List.subset_append_of_subset_right _ (List.subset_cons_self _ _)
  | .ternary cond question yes none, r, h => by
      rw [Resolve.expr, Expr.sites, Expr.marks, List.map_append]
      refine meets_then h (fun h => Expr.meets areas init cond (h.subset (by simp [Expr.names])))
        fun r₁ h => ?_
      rw [← List.append_nil (List.map _ yes.marks)]
      exact meets_then h (fun h => Expr.meets areas init yes (h.subset (by simp [Expr.names])))
        fun r₂ _ => .update rfl rfl rfl
  | .ternary cond _ yes (some no), r, h => by
      rw [Resolve.expr, Expr.sites, Expr.marks, List.map_append, List.map_append]
      refine meets_then h (fun h => Expr.meets areas init cond (h.subset (by simp [Expr.names])))
        fun r₁ h => ?_
      exact meets_then h (fun h => Expr.meets areas init yes (h.subset (by simp [Expr.names])))
        fun r₂ h => Expr.meets areas init no (h.subset (by simp [Expr.names]))
  | .unary _ operand, r, h => Expr.meets areas init operand h
  | .variable id name, r, h => meets_reference h

theorem Expr.meetsAll (areas : List Area) (init : Option Token) : ∀ (es : List Expr)
    {r : Resolver}, Reading areas init r.scopes (Expr.namesAll es) →
    Meets (Resolve.exprs es) r ((Expr.marksAll es).map (⟨·, areas, init⟩)) (· = r.scopes)
  | [], r, h => .nothing rfl
  | e :: es, r, h => by
      rw [Resolve.exprs, Expr.marksAll, List.map_append]
      exact meets_then h (fun h => Expr.meets areas init e (h.subset (by simp [Expr.namesAll])))
        fun r₁ h => Expr.meetsAll areas init es (h.subset (by simp [Expr.namesAll]))

end

/-! ### Statements -/

/-- The kind of body tells whether a function or a method is around. -/
def Within (region : Region) (areas : List Area) : Prop :=
  region = .none ↔ ∀ a ∈ areas, a.isCall = false

theorem Within.block {region : Region} {areas : List Area} (h : Within region areas)
    (body : List Stmt) : Within region (.block body :: areas) := by
  have : Within region areas ↔ Within region (.block body :: areas) := by
    simp [Within, Area.isCall]
  exact this.1 h

theorem Within.call {region : Region} (hr : region ≠ .none) (decl : FunDecl) (areas : List Area) :
    Within region (.call decl :: areas) := by
  simp [Within, hr, Area.isCall]

theorem Resolver.scopes_put (r : Resolver) (name : String) (ready : Bool) :
    (r.put name ready).scopes = r.scopes.modifyHead (Bindings.put · name ready) := by
  unfold Resolver.put
  split <;> simp [*]

/-- A name that is declared and then defined is ready. -/
theorem Ready.put {scopes : List Scope} (h : Ready scopes) (name : String) :
    Ready ((scopes.modifyHead (Bindings.put · name false)).modifyHead
      (Bindings.put · name true)) := by
  cases scopes with
  | nil => exact h
  | cons scope scopes =>
    intro s hs x
    simp only [List.modifyHead_cons, List.mem_cons] at hs
    rcases hs with rfl | hs
    · rw [Bindings.get?_put, Bindings.get?_put]
      split_ifs
      · simp
      · exact h scope (by simp) x
    · exact h s (by simp [hs]) x

/-- At the beginning of an expression that is no initialiser, all names are ready. -/
theorem Ready.reading {areas : List Area} {scopes : List Scope} {names : List Token}
    (h : Ready scopes) (ht : Tracking [] names scopes areas) : Reading areas none scopes names where
  depth t hmem := ht.depth hmem (by simp)
  pending x := by
    have : scopes.head?.bind (Bindings.get? · x) ≠ some false := by
      cases scopes with
      | nil => simp
      | cons scope scopes => simpa using h scope (by simp) x
    simp [this]

/-- In an initialiser, the variable itself is not ready. -/
theorem Ready.initialising {areas : List Area} {scopes : List Scope} {names : List Token}
    {name : Token} (h : Ready scopes)
    (ht : Tracking [] names (scopes.modifyHead (Bindings.put · name.lexeme false)) areas) :
    Reading areas (some name) (scopes.modifyHead (Bindings.put · name.lexeme false)) names where
  depth t hmem := ht.depth hmem (by simp)
  pending x := by
    cases scopes with
    | nil =>
      cases ht
      simp
    | cons scope scopes =>
      obtain ⟨a, outer, rfl, -⟩ := ht
      have := h scope (by simp) x
      simp only [List.modifyHead_cons, List.head?_cons, Option.bind_some, Bindings.get?_put]
      split_ifs with hx
      · simp [hx]
      · simp [this, Ne.symm hx]

/-- What the analysis of a statement needs: the open scopes belong to the areas, all names are
ready, and the names of the statement stand in order. -/
structure Ahead (areas : List Area) (r : Resolver) (own names : List Token) : Prop where
  tracking : Tracking own names r.scopes areas
  ready : Ready r.scopes
  within : Within r.region areas
  sorted : names.Pairwise Token.Before

/-- What a step leaves that has declared the names. -/
def Leaves (r : Resolver) (new : List Token) (scopes : List Scope) : Prop :=
  Extended (new.map Token.lexeme) r.scopes scopes ∧ Ready scopes

theorem Leaves.trans {r r₁ : Resolver} {xs ys : List Token} {scopes : List Scope}
    (h : Leaves r xs r₁.scopes) (h' : Leaves r₁ ys scopes) : Leaves r (xs ++ ys) scopes :=
  ⟨by rw [List.map_append]; exact h.1.trans h'.1, h'.2⟩

section Ahead

variable {areas : List Area} {r : Resolver} {own names : List Token}

theorem Ahead.expr {e : Expr} (h : Ahead areas r [] e.names) :
    Meets (Resolve.expr e) r (e.sites areas none) (Leaves r []) := by
  refine (Expr.meets areas none e (h.ready.reading h.tracking)).mono fun scopes he => ?_
  subst he
  exact ⟨Extended.refl _, h.ready⟩

/-- One part after another. Each part declares some of its own names, and the names of the first
stand before those of the second. -/
theorem Ahead.seq {act : Resolve} {next : Unit → Resolve} {sites more : List Site}
    {own₁ own₂ names₁ names₂ : List Token} (h : Ahead areas r (own₁ ++ own₂) (names₁ ++ names₂))
    (hs₁ : own₁ ⊆ names₁) (hs₂ : own₂ ⊆ names₂)
    (hact : Ahead areas r own₁ names₁ → Meets act r sites (Leaves r own₁))
    (hnext : ∀ r₁, Ahead areas r₁ own₂ names₂ → Meets (next ()) r₁ more (Leaves r₁ own₂)) :
    Meets (act >>= next) r (sites ++ more) (Leaves r (own₁ ++ own₂)) := by
  obtain ⟨hsorted₁, hsorted₂, hcross⟩ := List.pairwise_append.1 h.sorted
  have first : Ahead areas r own₁ names₁ := by
    refine ⟨h.tracking.narrow (List.subset_append_left _ _) (List.subset_append_left _ _) ?_,
      h.ready, h.within, hsorted₁⟩
    intro d hd
    refine (List.mem_append.1 hd).imp_right fun hd t ht => ?_
    exact (hcross t ht d (hs₂ hd)).asymm
  refine (hact first).bind fun r₁ hr hl => ?_
  refine (hnext r₁ ⟨?_, hl.2, hr ▸ h.within, hsorted₂⟩).mono fun scopes hl' => hl.trans hl'
  refine h.tracking.step own₁ hl.1 (List.subset_append_left _ _) (List.subset_append_right _ _)
    (List.subset_append_right _ _) (fun d hd t ht => hcross d (hs₁ hd) t ht) fun d hd => ?_
  exact (List.mem_append.1 hd).imp_right Or.inl

/-- An area, from its first declaration to its last. -/
theorem Ahead.enter (h : Ahead areas r [] names) (a : Area) {region : Region}
    (hw : Within region (a :: areas)) :
    Ahead (a :: areas) { r with scopes := [] :: r.scopes, region } a.declarations names where
  tracking := h.tracking.enter a (List.Subset.refl _)
  ready := by
    intro scope hs x
    rcases List.mem_cons.1 hs with rfl | hs
    · simp
    · exact h.ready scope hs x
  within := hw
  sorted := h.sorted

/-- The scope of an area is dropped at its end. -/
theorem Leaves.close {region : Region} {scopes : List Scope}
    (h : Leaves { r with scopes := [] :: r.scopes, region } own scopes) :
    Leaves r [] scopes.tail := by
  obtain ⟨⟨scope, rfl, -⟩, hready⟩ := h
  exact ⟨Extended.refl _, fun s hs => hready s (List.mem_cons_of_mem _ hs)⟩

end Ahead

/-! ### Single steps -/

section Steps

variable {areas : List Area} {r : Resolver}

/-- A name that is declared and defined at once. -/
theorem meets_declare (name : Token) (h : Ready r.scopes) :
    Meets (do Resolve.declare name; Resolve.define name) r [] (Leaves r [name]) := by
  have hext := (r.extended_put name.lexeme false).trans
    (Resolver.extended_put (r.put name.lexeme false) name.lexeme true)
  refine Meets.update (f := fun r => (r.put name.lexeme false).put name.lexeme true) (by simp)
    (by simp) ⟨hext.congr (by simp), ?_⟩
  rw [Resolver.scopes_put, Resolver.scopes_put]
  exact h.put name.lexeme

theorem meets_defineAll (names : List Token) : ∀ {r : Resolver}, Ready r.scopes →
    Meets (Resolve.defineAll names) r [] (Leaves r names) := by
  have ready : ∀ (names : List Token) {r : Resolver}, Ready r.scopes →
      Ready (names.foldl (fun r name => (r.put name.lexeme false).put name.lexeme true) r).scopes ∧
      (names.foldl (fun r name => (r.put name.lexeme false).put name.lexeme true) r).region =
        r.region := by
    intro names
    induction names with
    | nil => exact fun h => ⟨h, rfl⟩
    | cons name names ih =>
      intro r h
      have := ih (r := (r.put name.lexeme false).put name.lexeme true) (by
        rw [Resolver.scopes_put, Resolver.scopes_put]
        exact h.put name.lexeme)
      simpa using this
  intro r h
  obtain ⟨hext, hlocals⟩ := extended_putAll names r
  obtain ⟨hready, hregion⟩ := ready names h
  exact .update hlocals hregion ⟨hext, hready⟩

theorem meets_checkReturn (keyword : Option Token) (h : Within r.region areas)
    (hr : Ready r.scopes) :
    Meets (Resolve.checkReturn keyword) r [⟨.returns keyword, areas, none⟩] (Leaves r []) := by
  have hiff : r.region = .none ↔
      Site.returnsFromTop ⟨.returns keyword, areas, none⟩ = true := by
    unfold Within at h
    rw [h]
    simp [Site.returnsFromTop]
  unfold Meets Resolve.checkReturn
  by_cases hn : r.region = .none
  · rw [if_pos hn]
    simp [Site.violation?, hiff.1 hn]
  · rw [if_neg hn]
    have hv : Site.returnsFromTop ⟨.returns keyword, areas, none⟩ = false := by
      simpa using fun hv => hn (hiff.2 hv)
    exact ⟨by simp [Site.violation?, hv], rfl, rfl, Extended.refl _, hr⟩

theorem meets_checkFresh {name : Token} {ahead : List Token}
    (h : Tracking [name] ahead r.scopes areas) (hmem : name ∈ ahead) :
    Meets (Resolve.checkFresh name) r [⟨.declares name, areas, none⟩] (· = r.scopes) := by
  have hiff : (r.innermost? name.lexeme).isSome = true ↔
      Site.redeclares ⟨.declares name, areas, none⟩ name = true := by
    rw [Resolver.innermost?_eq]
    cases hsc : r.scopes with
    | nil =>
      rw [hsc] at h
      cases h
      simp [Site.redeclares]
    | cons scope scopes =>
      rw [hsc] at h
      obtain ⟨a, outer, rfl, ⟨met, hin⟩, -⟩ := h
      have := hin.has_iff hmem (by simpa using fun hb : name.Before name => hb.asymm hb)
      simpa [Site.redeclares, Bindings.has] using this
  unfold Meets Resolve.checkFresh
  by_cases hs : (r.innermost? name.lexeme).isSome = true
  · rw [if_pos hs]
    simp [Site.violation?, hiff.1 hs]
  · rw [if_neg hs]
    have hv : Site.redeclares ⟨.declares name, areas, none⟩ name = false := by
      simpa using fun hv => hs (hiff.2 hv)
    exact ⟨by simp [Site.violation?, hv], rfl, rfl, rfl⟩

/-- A variable declaration: the name must be new, and is ready after its initialiser. -/
theorem meets_varDecl {name : Token} {init : Option Expr}
    (h : Ahead areas r [name] (Stmt.varDecl name init).names) :
    Meets (Resolve.stmt (.varDecl name init)) r ((Stmt.varDecl name init).sites areas)
      (Leaves r [name]) := by
  cases init with
  | none =>
    rw [Resolve.stmt, Stmt.sites, ← List.append_nil [_]]
    refine (meets_checkFresh h.tracking (by simp [Stmt.names])).bind fun r₁ _ hs => ?_
    refine (meets_declare name (hs ▸ h.ready)).mono fun scopes hl => ?_
    rwa [Leaves, hs] at hl
  | some init =>
    rw [Stmt.names] at h
    rw [Resolve.stmt, Stmt.sites, ← List.singleton_append]
    refine (meets_checkFresh h.tracking (by simp)).bind fun r₁ hr₁ hs₁ => ?_
    have hput := Resolver.extended_put r₁ name.lexeme false
    have hdeclared : (r₁.put name.lexeme false).scopes =
        r.scopes.modifyHead (Bindings.put · name.lexeme false) := by
      rw [Resolver.scopes_put, hs₁]
    -- inside the initialiser the name is declared, but not ready
    have htrack : Tracking [] init.names (r₁.put name.lexeme false).scopes areas := by
      refine h.tracking.step [name] (hs₁ ▸ hput) (List.Subset.refl _) (List.nil_subset _)
        (List.subset_cons_self _ _) ?_ fun d hd => Or.inl hd
      intro d hd t ht
      rw [List.mem_singleton.1 hd]
      exact List.rel_of_pairwise_cons h.sorted ht
    have hread := hdeclared ▸ h.ready.initialising (hdeclared ▸ htrack)
    have hdeclare : Meets (Resolve.declare name) r₁ []
        (· = (r₁.put name.lexeme false).scopes) := .update (by simp) (by simp) rfl
    rw [← List.nil_append (init.sites _ _)]
    refine hdeclare.bind fun r₂ _ hs₂ => ?_
    rw [← List.append_nil (init.sites _ _)]
    refine (Expr.meets areas (some name) init (hs₂ ▸ hread)).bind fun r₃ _ hs₃ => ?_
    refine .update (by simp) (by simp) ⟨?_, ?_⟩
    · have hlast := Resolver.extended_put r₃ name.lexeme true
      rw [hs₃, hs₂] at hlast
      exact ((hs₁ ▸ hput).trans hlast).congr (by simp)
    · rw [Resolver.scopes_put, hs₃, hs₂, hdeclared]
      exact h.ready.put name.lexeme

end Steps

/-! ### All statements -/

/-- The names in a function after its own. -/
def FunDecl.innerNames (f : FunDecl) : List Token := f.params ++ Stmt.namesAll f.body

theorem FunDecl.names_eq (f : FunDecl) : f.names = f.name :: f.innerNames := by
  cases f
  rfl

section Named

variable {areas : List Area} {r : Resolver} {name : Token} {names : List Token}

/-- A name that is declared and defined before a further step, which declares nothing. -/
theorem Ahead.named {next : Resolve} {sites : List Site} (h : Ahead areas r [name] (name :: names))
    (hnext : ∀ r₁, Ahead areas r₁ [] names → Meets next r₁ sites (Leaves r₁ [])) :
    Meets (do Resolve.declare name; Resolve.define name; next) r sites (Leaves r [name]) := by
  have h' : Ahead areas r ([name] ++ []) ([name] ++ names) := h
  show Meets ((do Resolve.declare name; Resolve.define name) >>= fun _ => next) r ([] ++ sites)
    (Leaves r ([name] ++ []))
  exact h'.seq (List.Subset.refl _) (List.nil_subset _) (fun h => meets_declare name h.ready) hnext

theorem Ahead.sublist (h : Ahead areas r [] names) {rest : List Token} (hn : names = name :: rest) :
    Ahead areas r [] rest := by
  subst hn
  exact ⟨h.tracking.narrow (List.Subset.refl _) (List.subset_cons_self _ _) (by simp), h.ready,
    h.within, h.sorted.of_cons⟩

end Named

mutual

/-- The analysis of a statement meets its sites. -/
theorem Stmt.meets (areas : List Area) : ∀ (s : Stmt) {r : Resolver},
    Ahead areas r s.declarations s.names →
    Meets (Resolve.stmt s) r (s.sites areas) (Leaves r s.declarations)
  | .block body, r, h => by
      have hbody : Ahead (.block body :: areas) { r with scopes := [] :: r.scopes }
          (body.flatMap Stmt.declarations) (Stmt.namesAll body) :=
        h.enter (.block body) (h.within.block body)
      exact (Stmt.meetsAll _ body hbody).inScope fun scopes hl => hl.close
  | .classDecl name methods, r, h => by
      rw [Resolve.stmt, Stmt.sites]
      rw [Stmt.names] at h
      exact h.named fun r₁ h => FunDecl.meetsAll areas (by decide) methods h
  | .expr value, r, h | .print value, r, h => h.expr
  | .function decl, r, h => by
      rw [Resolve.stmt, Stmt.sites]
      rw [Stmt.names, decl.names_eq] at h
      exact h.named fun r₁ h => FunDecl.meets areas (by decide) decl h
  | .branch cond yes none, r, h => by
      rw [Resolve.stmt, Stmt.sites]
      exact Ahead.seq h (List.nil_subset _) yes.declarations_subset Ahead.expr
        fun r₁ h => Stmt.meets areas yes h
  | .branch cond yes (some no), r, h => by
      rw [Resolve.stmt, Stmt.sites]
      have hsub : yes.declarations ++ no.declarations ⊆ yes.names ++ no.names :=
        List.append_subset.2 ⟨List.subset_append_of_subset_left _ yes.declarations_subset,
          List.subset_append_of_subset_right _ no.declarations_subset⟩
      have h' : Ahead areas r ([] ++ (yes.declarations ++ no.declarations))
          (cond.names ++ (yes.names ++ no.names)) := h
      exact h'.seq (List.nil_subset _) hsub Ahead.expr fun r₁ h =>
        h.seq yes.declarations_subset no.declarations_subset (Stmt.meets areas yes)
          fun r₂ h => Stmt.meets areas no h
  | .ret keyword none, r, h => meets_checkReturn keyword h.within h.ready
  | .ret keyword (some value), r, h => by
      rw [Resolve.stmt, Stmt.sites, ← List.singleton_append]
      have h' : Ahead areas r ([] ++ []) ([] ++ value.names) := h
      exact h'.seq (List.nil_subset _) (List.nil_subset _)
        (fun h => meets_checkReturn keyword h.within h.ready) fun r₁ h => h.expr
  | .varDecl name none, r, h => meets_varDecl h
  | .varDecl name (some init), r, h => meets_varDecl h
  | .loop cond body, r, h => by
      rw [Resolve.stmt, Stmt.sites]
      exact Ahead.seq h (List.nil_subset _) body.declarations_subset Ahead.expr
        fun r₁ h => Stmt.meets areas body h

/-- The analysis of a function meets its sites, once its own name is behind. -/
theorem FunDecl.meets (areas : List Area) {region : Region} (hregion : region ≠ .none) :
    ∀ (f : FunDecl) {r : Resolver}, Ahead areas r [] f.innerNames →
    Meets (Resolve.function region f) r (f.sites areas) (Leaves r [])
  | .mk name params body, r, h => by
      rw [Resolve.function, FunDecl.sites]
      have hinner : Ahead (.call (.mk name params body) :: areas)
          { r with scopes := [] :: r.scopes, region }
          (params ++ body.flatMap Stmt.declarations) (params ++ Stmt.namesAll body) :=
        h.enter (.call (.mk name params body)) (Within.call hregion _ areas)
      have hbody : Meets (do Resolve.defineAll params; Resolve.stmts body)
          { r with scopes := [] :: r.scopes, region }
          ([] ++ Stmt.sitesAll (.call (.mk name params body) :: areas) body)
          (Leaves _ (params ++ body.flatMap Stmt.declarations)) :=
        hinner.seq (List.Subset.refl _) (Stmt.declarationsAll_subset body)
          (fun h => meets_defineAll params h.ready) fun r₁ h => Stmt.meetsAll _ body h
      exact Meets.inRegion (Meets.inScope hbody fun scopes hl => hl.close)

/-- The analysis of several statements meets their sites. -/
theorem Stmt.meetsAll (areas : List Area) : ∀ (ss : List Stmt) {r : Resolver},
    Ahead areas r (ss.flatMap Stmt.declarations) (Stmt.namesAll ss) →
    Meets (Resolve.stmts ss) r (Stmt.sitesAll areas ss)
      (Leaves r (ss.flatMap Stmt.declarations))
  | [], r, h => .nothing ⟨Extended.refl _, h.ready⟩
  | s :: ss, r, h => by
      rw [Resolve.stmts, Stmt.sitesAll, List.flatMap_cons]
      rw [List.flatMap_cons, Stmt.namesAll] at h
      exact h.seq s.declarations_subset (Stmt.declarationsAll_subset ss) (Stmt.meets areas s)
        fun r₁ h => Stmt.meetsAll areas ss h

/-- The analysis of several functions meets their sites. -/
theorem FunDecl.meetsAll (areas : List Area) {region : Region} (hregion : region ≠ .none) :
    ∀ (fs : List FunDecl) {r : Resolver}, Ahead areas r [] (FunDecl.namesAll fs) →
    Meets (Resolve.functions region fs) r (FunDecl.sitesAll areas fs) (Leaves r [])
  | [], r, h => .nothing ⟨Extended.refl _, h.ready⟩
  | f :: fs, r, h => by
      rw [Resolve.functions, FunDecl.sitesAll]
      rw [FunDecl.namesAll] at h
      exact Ahead.seq h (List.nil_subset _) (List.nil_subset _)
        (fun h => FunDecl.meets areas hregion f (h.sublist f.names_eq))
        fun r₁ h => FunDecl.meetsAll areas hregion fs h

end

/-! ### Programs -/

section Programs

variable {source : List Char} {c c' : Cursor} {p : Program}

/-- The analysis of a whole program: it stops at the first rule that is broken, or else has entered
every node. -/
theorem Program.FromText.resolve (h : p.FromText source c c') :
    p.resolve.error? = p.sites.findSome? Site.violation? ∧
      (p.resolve.error? = none →
        p.resolve.locals = p.sites.foldl Locals.place (Locals.blank p.nodes)) := by
  have start : Ahead [] { locals := Locals.blank p.nodes }
      (p.stmts.flatMap Stmt.declarations) (Stmt.namesAll p.stmts) :=
    ⟨rfl, by simp [Ready], by simp [Within], h.sorted_names⟩
  unfold Program.resolve Resolver.resolve
  dsimp only
  obtain ⟨r, hrun, hv, hl, -⟩ | ⟨e, r, hrun, hv⟩ := (Stmt.meetsAll [] p.stmts start).cases
  · rw [hrun]
    exact ⟨hv.symm, fun _ => hl⟩
  · rw [hrun]
    exact ⟨hv.symm, fun he => by cases he⟩

/-- A program is rejected exactly if one of its sites breaks a rule: a return outside of every
function and method, a variable of a block or function whose name that area has declared before, or
a variable read inside its own initialiser in a block or function. The error is the one for the
first such site. -/
theorem rejects_first_violation (h : p.FromText source c c') :
    (p.resolve.error?.isSome = true ↔ ∃ s ∈ p.sites,
      (∃ keyword, s.mark = .returns keyword ∧ s.returnsFromTop = true) ∨
      (∃ name, s.mark = .declares name ∧ s.redeclares name = true) ∨
      ∃ id name, s.mark = .reads id name ∧ s.readsOwnInitialiser name = true) ∧
    p.resolve.error? = p.sites.findSome? Site.violation? := by
  refine ⟨?_, h.resolve.1⟩
  rw [h.resolve.1, List.findSome?_isSome_iff]
  refine exists_congr fun s => and_congr_right fun _ => ?_
  unfold Site.violation?
  cases s.mark <;> simp

/-- Of two reads of a variable in its own initialiser, the one in the value of a property assignment
is met before the one in its object. -/
theorem rejects_first_violation_in_value :
    ∃ (source : List Char) (p : Program) (c : Cursor),
      source = "\x7b var x = x.y = f(x); return; \x7d".toList ∧
      p.FromText source { rest := (scan source).tokens } c ∧
      p.resolve.error? = p.sites.findSome? Site.violation? ∧
      (p.resolve.error?.bind ScopeError.token).map Token.pos = some ⟨1, 19⟩ := by
  have h : (match Program.parse
        { rest := (scan "\x7b var x = x.y = f(x); return; \x7d".toList).tokens } with
      | (.ok p, _) =>
          decide ((p.resolve.error?.bind ScopeError.token).map Token.pos = some ⟨1, 19⟩)
      | _ => false) = true := by decide +kernel
  split at h
  · rename_i p c hp
    exact ⟨_, p, c, rfl, ⟨List.suffix_rfl, hp⟩,
      (rejects_first_violation ⟨List.suffix_rfl, hp⟩).2, of_decide_eq_true h⟩
  · cases h

theorem Locals.place_eq {locals : Locals} {s : Site} {id : Int} {name : Token}
    (hs : s.node? = some (id, name)) (hid : 0 ≤ id) (hlt : id.toNat < locals.size)
    (hblank : locals[id.toNat]? = some globalDistance) :
    locals.place s = locals.setIfInBounds id.toNat (entryFor s.areas name) := by
  unfold Locals.place entryFor
  rw [hs]
  dsimp only
  cases s.areas.findIdx? fun a => decide (a.Declares name) with
  | some d =>
    have hgrown : id.toNat + 1 - locals.size = 0 := by omega
    simp [Locals.record, not_lt.2 hid, hgrown]
  | none =>
    apply Array.ext_getElem?
    intro i
    rw [Array.getElem?_setIfInBounds]
    split_ifs with hi
    · rw [← hi, hblank]
    · rfl

/-- Sites of different nodes do not disturb each other's entries. -/
theorem Locals.entries_foldl : ∀ {sites : List Site} {locals : Locals},
    (Site.ids sites).Nodup →
    (∀ id ∈ Site.ids sites, 0 ≤ id ∧ id.toNat < locals.size ∧
      locals[id.toNat]? = some globalDistance) →
    (sites.foldl Locals.place locals).size = locals.size ∧
      (∀ i, (∀ id ∈ Site.ids sites, id.toNat ≠ i) →
        (sites.foldl Locals.place locals)[i]? = locals[i]?) ∧
      ∀ s ∈ sites, ∀ id name, s.node? = some (id, name) →
        (sites.foldl Locals.place locals)[id.toNat]? = some (entryFor s.areas name)
  | [], locals, _, _ => ⟨rfl, fun _ _ => rfl, by simp⟩
  | s :: sites, locals, hnodup, hids => by
    rw [List.foldl_cons]
    cases hs : s.node? with
    | none =>
      rw [Site.ids_cons_other hs] at hnodup hids
      rw [show locals.place s = locals by simp [Locals.place, hs]]
      obtain ⟨hsize, hother, hentry⟩ := entries_foldl hnodup hids
      refine ⟨hsize, fun i hi => hother i (by rwa [Site.ids_cons_other hs] at hi), ?_⟩
      intro s' hs' id name hnode
      rcases List.mem_cons.1 hs' with rfl | hs'
      · rw [hs] at hnode
        cases hnode
      · exact hentry s' hs' id name hnode
    | some node =>
      obtain ⟨id, name⟩ := node
      have hcons : Site.ids (s :: sites) = id :: Site.ids sites := by simp [Site.ids, hs]
      rw [hcons] at hnodup hids ⊢
      obtain ⟨hnotMem, hnodup⟩ := List.nodup_cons.1 hnodup
      obtain ⟨⟨hid, hlt, hblank⟩, hids⟩ := List.forall_mem_cons.1 hids
      have hne : ∀ id' ∈ Site.ids sites, id'.toNat ≠ id.toNat := by
        intro id' hid' he
        have := (hids id' hid').1
        exact hnotMem ((show id' = id by omega) ▸ hid')
      rw [Locals.place_eq hs hid hlt hblank]
      obtain ⟨hsize, hother, hentry⟩ := @entries_foldl sites
        (locals.setIfInBounds id.toNat (entryFor s.areas name)) hnodup (by
          intro id' hid'
          obtain ⟨hpos, hlt', hblank'⟩ := hids id' hid'
          refine ⟨hpos, by simpa using hlt', ?_⟩
          rw [Array.getElem?_setIfInBounds, if_neg (hne id' hid').symm, hblank'])
      refine ⟨by rw [hsize, Array.size_setIfInBounds], fun i hi => ?_, ?_⟩
      · obtain ⟨hi₀, hi⟩ := List.forall_mem_cons.1 hi
        rw [hother i hi, Array.getElem?_setIfInBounds, if_neg hi₀]
      · intro s' hs' id' name' hnode
        rcases List.mem_cons.1 hs' with rfl | hs'
        · rw [hs] at hnode
          cases hnode
          rw [hother _ hne, Array.getElem?_setIfInBounds, if_pos rfl, if_pos hlt]
        · exact hentry s' hs' id' name' hnode

/-- The table of a program holds the distances of lexical scoping, and nothing else. -/
theorem table_lexical (h : p.FromText source c c') (hr : p.resolve.error? = none) :
    p.resolve.locals.size = p.nodes ∧
      ∀ s ∈ p.sites, ∀ id name, s.node? = some (id, name) →
        0 ≤ id ∧ p.resolve.locals[id.toNat]? = some (entryFor s.areas name) := by
  obtain ⟨hnumbered, hnodes⟩ := h.numbered
  have hperm : (Site.ids p.sites).Perm (Stmt.idsAll p.stmts) := Stmt.perm_sitesAll [] p.stmts
  have hrange : ∀ id ∈ Site.ids p.sites, 0 ≤ id ∧ id.toNat < (Locals.blank p.nodes).size ∧
      (Locals.blank p.nodes)[id.toNat]? = some globalDistance := by
    intro id hid
    have hid := hperm.mem_iff.1 hid
    rw [hnumbered] at hid
    obtain ⟨n, hn, rfl⟩ := List.mem_map.1 hid
    have hlt : n < p.nodes := by
      have := List.mem_range'_1.1 hn
      omega
    simp [Locals.blank, hlt]
  obtain ⟨hsize, -, hentry⟩ :=
    Locals.entries_foldl (hperm.nodup_iff.2 hnumbered.nodup) hrange
  rw [h.resolve.2 hr]
  refine ⟨by simpa [Locals.blank] using hsize, fun s hs id name hnode => ?_⟩
  have hmem : id ∈ Site.ids p.sites :=
    List.mem_map.2 ⟨(id, name), List.mem_filterMap.2 ⟨s, hs, hnode⟩, rfl⟩
  exact ⟨(hrange id hmem).1, hentry s hs id name hnode⟩

/-- The parameter lies one area out of the block and the variable of the block in it. A name is
global before the function declares it, and local from there on. -/
theorem table_lexical_in_function :
    ∃ (source : List Char) (p : Program) (c : Cursor),
      source = "func f(a) \x7b b; \x7b var b = a; b; \x7d if (b) func b() \x7b\x7d b; \x7d".toList ∧
      p.FromText source { rest := (scan source).tokens } c ∧ p.resolve.error? = none ∧
      p.resolve.locals = #[-1, 1, 0, -1, 0] ∧
      ∀ s ∈ p.sites, ∀ id name, s.node? = some (id, name) →
        p.resolve.locals[id.toNat]? = some (entryFor s.areas name) := by
  have h : (match Program.parse (.ofSource
        "func f(a) \x7b b; \x7b var b = a; b; \x7d if (b) func b() \x7b\x7d b; \x7d".toList) with
      | (.ok p, _) =>
          p.resolve.error?.isNone && decide (p.resolve.locals = #[-1, 1, 0, -1, 0])
      | _ => false) = true := by decide +kernel
  split at h
  · rename_i p c hp
    simp only [Bool.and_eq_true, Option.isNone_iff_eq_none, decide_eq_true_eq] at h
    refine ⟨_, p, c, rfl, ⟨List.suffix_rfl, hp⟩, h.1, h.2, fun s hs id name hn => ?_⟩
    exact ((table_lexical ⟨List.suffix_rfl, hp⟩ h.1).2 s hs id name hn).2
  · cases h

end Programs

end Wandika
