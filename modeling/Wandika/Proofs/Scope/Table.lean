import Wandika.Proofs.Scope.Visits

/-!
# The table of distances

* `Resolve.ok_bind`: what a sequence has done that succeeds, `Resolve.after_bind_cases` what it leaves
  however it ends;
* `Extended`: the innermost scope has come to hold further names, and no other scope has changed;
* `Analysed`: what a successful step of the analysis has done, told by its visits;
* `Stmt.analysed`: what the analysis of a statement does;
* `distance?_of_visit`: the entry of a node is the depth of its name at its visit.
-/

namespace Wandika

/-! ### Single names -/

theorem Bindings.mem_names_put {α : Type} (bs : Bindings α) (name x : String) (value : α) :
    x ∈ (bs.put name value).names ↔ x ∈ bs.names ∨ x = name := by
  induction bs with
  | nil => simp [put, names]
  | cons b bs ih =>
    obtain ⟨n, v⟩ := b
    simp only [put]
    split_ifs with h
    · subst h
      simp only [names, List.map_cons, List.mem_cons]
      tauto
    · simp only [names, List.map_cons, List.mem_cons] at ih ⊢
      rw [ih]
      tauto

theorem Bindings.has_eq_true {α : Type} (bs : Bindings α) (x : String) :
    bs.has x = true ↔ x ∈ bs.names := by
  induction bs with
  | nil => simp [has, names]
  | cons b bs ih =>
    obtain ⟨n, v⟩ := b
    simp only [has, names, get?_cons, List.map_cons, List.mem_cons] at ih ⊢
    split_ifs with h
    · simp [h]
    · rw [ih]
      simp [h]

/-- An entry of the table changes the distance of its own node, and of no other. -/
theorem Locals.distance?_record (locals : Locals) {id : Int} (h : 0 ≤ id) (d : Nat) (other : Int) :
    (locals.record id d).distance? other =
      if other = id then some d else locals.distance? other := by
  obtain ⟨n, rfl⟩ := Int.eq_ofNat_of_zero_le h
  by_cases ho : other < 0
  · have hne : other ≠ n := by omega
    simp [distance?, ho, hne]
  obtain ⟨m, rfl⟩ := Int.eq_ofNat_of_zero_le (not_lt.1 ho)
  have hn : ¬ (n : Int) < 0 := by omega
  simp only [record, distance?, ho, hn, if_false, Int.toNat_natCast, Nat.cast_inj,
    Array.getElem?_setIfInBounds, Array.getElem?_append, Array.size_append, Array.size_replicate,
    Array.getElem?_replicate, globalDistance]
  by_cases hmn : m = n
  · subst hmn
    rw [if_pos rfl, if_pos (by omega)]
    simp
  · simp only [Ne.symm hmn, hmn, if_false]
    by_cases hm : m < locals.size
    · simp [hm]
    · rw [if_neg hm, Array.getElem?_eq_none (by omega)]
      split_ifs <;> simp

/-! ### Successful steps -/

namespace Resolve

theorem ok_bind {act : Resolve} {next : Unit → Resolve} {r r' : Resolver} :
    (act >>= next) r = .ok () r' ↔ ∃ r₁, act r = .ok () r₁ ∧ next () r₁ = .ok () r' := by
  show EStateM.bind act next r = _ ↔ _
  unfold EStateM.bind
  cases act r with
  | ok a r₁ => simp
  | error e r₁ => simp

theorem after_of_ok {act : Resolve} {r r' : Resolver} (h : act r = .ok () r') :
    after act r = r' := by
  simp [after, h]

theorem ok_inScope {act : Resolve} {r r' : Resolver} (h : inScope act r = .ok () r') :
    ∃ r₁, act { r with scopes := [] :: r.scopes } = .ok () r₁ ∧
      r' = { r₁ with scopes := r₁.scopes.tail } := by
  unfold inScope at h
  split at h
  · rename_i r₁ e
    cases h
    exact ⟨r₁, e, rfl⟩
  · cases h

theorem ok_inRegion {region : Region} {act : Resolve} {r r' : Resolver}
    (h : inRegion region act r = .ok () r') :
    ∃ r₁, act { r with region } = .ok () r₁ ∧ r' = { r₁ with region := r.region } := by
  unfold inRegion at h
  split at h
  · rename_i r₁ e
    cases h
    exact ⟨r₁, e, rfl⟩
  · cases h

theorem ok_checkReturn {keyword : Option Token} {r r' : Resolver}
    (h : checkReturn keyword r = .ok () r') : r' = r := by
  unfold checkReturn at h
  split_ifs at h
  cases h
  rfl

theorem ok_checkFresh {name : Token} {r r' : Resolver} (h : checkFresh name r = .ok () r') :
    r' = r := by
  unfold checkFresh at h
  split_ifs at h
  cases h
  rfl

/-! ### However a step ends -/

theorem after_of_error {act : Resolve} {e : ScopeError} {r r' : Resolver}
    (h : act r = .error e r') : after act r = r' := by
  simp [after, h]

/-- A sequence stops where its first step does, or goes on from there. -/
theorem after_bind_cases (act next : Resolve) (r : Resolver) :
    after (do act; next) r = after act r ∨
      ∃ r₁, act r = .ok () r₁ ∧ after (do act; next) r = after next r₁ := by
  have hbind : (do act; next : Resolve) r = EStateM.bind act (fun _ => next) r := rfl
  cases hact : act r with
  | ok _ r₁ =>
    refine .inr ⟨r₁, rfl, ?_⟩
    rw [after, hbind, EStateM.bind, hact]
    rfl
  | error e r₁ =>
    have hstop : (do act; next : Resolve) r = .error e r₁ := by
      rw [hbind, EStateM.bind, hact]
    exact .inl ((after_of_error hstop).trans (after_of_error hact).symm)

theorem after_inScope (act : Resolve) (r : Resolver) :
    after (inScope act) r =
      { after act { r with scopes := [] :: r.scopes } with
        scopes := (after act { r with scopes := [] :: r.scopes }).scopes.tail } := by
  unfold after inScope
  cases act { r with scopes := [] :: r.scopes } <;> rfl

theorem after_inRegion (region : Region) (act : Resolve) (r : Resolver) :
    after (inRegion region act) r = { after act { r with region } with region := r.region } := by
  unfold after inRegion
  cases act { r with region } <;> rfl

end Resolve

/-! ### Further names -/

/-- The innermost scope has come to hold further names, and no other scope has changed. -/
def Extended (names : List String) : List Scope → List Scope → Prop
  | [], scopes' => scopes' = []
  | scope :: rest, scopes' =>
      ∃ scope' : Scope, scopes' = scope' :: rest ∧
        ∀ x, x ∈ scope'.names ↔ x ∈ scope.names ∨ x ∈ names

theorem Extended.refl (scopes : List Scope) : Extended [] scopes scopes := by
  cases scopes with
  | nil => rfl
  | cons scope rest => exact ⟨scope, rfl, by simp⟩

theorem Extended.trans {xs ys : List String} {a b c : List Scope} (h : Extended xs a b)
    (h' : Extended ys b c) : Extended (xs ++ ys) a c := by
  cases a with
  | nil =>
    cases h
    exact h'
  | cons scope rest =>
    obtain ⟨scope₁, rfl, h₁⟩ := h
    obtain ⟨scope₂, rfl, h₂⟩ := h'
    refine ⟨scope₂, rfl, fun x => ?_⟩
    rw [h₂, h₁, List.mem_append, or_assoc]

theorem Extended.congr {xs ys : List String} {a b : List Scope} (h : Extended xs a b)
    (hxy : ∀ x, x ∈ xs ↔ x ∈ ys) : Extended ys a b := by
  cases a with
  | nil => exact h
  | cons scope rest =>
    obtain ⟨scope₁, rfl, h₁⟩ := h
    exact ⟨scope₁, rfl, fun x => by rw [h₁, hxy]⟩

theorem Resolver.extended_put (r : Resolver) (name : String) (ready : Bool) :
    Extended [name] r.scopes (r.put name ready).scopes := by
  unfold Resolver.put
  split
  · rename_i h
    rw [h]
    rfl
  · rename_i scope rest h
    rw [h]
    refine ⟨_, rfl, fun x => ?_⟩
    rw [Bindings.mem_names_put, List.mem_singleton]

@[simp] theorem Resolver.locals_put (r : Resolver) (name : String) (ready : Bool) :
    (r.put name ready).locals = r.locals := by
  unfold Resolver.put
  split <;> rfl

@[simp] theorem Resolver.region_put (r : Resolver) (name : String) (ready : Bool) :
    (r.put name ready).region = r.region := by
  unfold Resolver.put
  split <;> rfl

/-- The table after a visit. -/
def Locals.enter (locals : Locals) (v : Visit) : Locals :=
  match Resolver.depth? v.scopes v.name with
  | some d => locals.record v.id d
  | none => locals

/-- Every scope belongs to a layer: the area of the layer declares its names, and they are settled
or doubtful there. -/
def Covered : List Scope → List Layer → Prop :=
  List.Forall₂ fun scope layer =>
    ∀ x ∈ scope.names, x ∈ layer.area.declared ∧ (x ∈ layer.settled ∨ x ∈ layer.doubtful)

theorem Covered.extend {scopes scopes' : List Scope} {layers : List Layer}
    {names settled doubtful : List String} (h : Covered scopes layers)
    (he : Extended names scopes scopes') (hd : Declares layers names)
    (hn : ∀ x ∈ names, x ∈ settled ∨ x ∈ doubtful) :
    Covered scopes' (settle settled (doubt doubtful layers)) := by
  cases h with
  | nil =>
    cases he
    exact .nil
  | cons hx hrest =>
    obtain ⟨scope', rfl, hs⟩ := he
    refine .cons (fun x hm => ?_) hrest
    simp only [List.mem_append]
    rcases (hs x).1 hm with hm | hm
    · obtain ⟨hdecl, hm | hm⟩ := hx x hm
      · exact ⟨hdecl, Or.inl (Or.inl hm)⟩
      · exact ⟨hdecl, Or.inr (Or.inl hm)⟩
    · rcases hn x hm with hm' | hm'
      · exact ⟨hd hm, Or.inl (Or.inr hm')⟩
      · exact ⟨hd hm, Or.inr (Or.inr hm')⟩

section Covered

variable {scopes scopes' : List Scope} {layers : List Layer} {names : List String}

theorem Covered.settle (h : Covered scopes layers) (he : Extended names scopes scopes')
    (hd : Declares layers names) : Covered scopes' (settle names layers) := by
  simpa using @Covered.extend _ _ _ _ names [] h he hd fun x hx => Or.inl hx

theorem Covered.doubt (h : Covered scopes layers) (he : Extended names scopes scopes')
    (hd : Declares layers names) : Covered scopes' (doubt names layers) := by
  simpa using @Covered.extend _ _ _ _ [] names h he hd fun x hx => Or.inr hx

theorem Covered.same (h : Covered scopes layers) (he : Extended [] scopes scopes') :
    Covered scopes' layers := by
  simpa using h.settle he (.nil layers)

end Covered

/-- What a successful step at the place of the layers has done: it has entered the names into the
innermost scope and its visits into the table. If the scopes belonged to the layers, they do so at
each of its visits. -/
structure Analysed (layers : List Layer) (r : Resolver) (names : List String) (visits : List Visit)
    (r' : Resolver) : Prop where
  scopes : Extended names r.scopes r'.scopes
  locals : r'.locals = visits.foldl Locals.enter r.locals
  region : r'.region = r.region
  covered : Declares layers names → Covered r.scopes layers →
    ∀ v ∈ visits, Covered v.scopes v.layers

namespace Analysed

variable {layers layers' : List Layer} {r r₁ r₂ : Resolver} {xs ys : List String}
  {vs ws : List Visit}

theorem refl (layers : List Layer) (r : Resolver) : Analysed layers r [] [] r :=
  ⟨.refl _, rfl, rfl, by simp⟩

/-- A step that goes on at the place that the names of the first step lead to. -/
theorem trans (h : Analysed layers r xs vs r₁) (h' : Analysed layers' r₁ ys ws r₂)
    (hl : Declares layers ys → Declares layers' ys)
    (hc : Declares layers xs → Covered r.scopes layers → Covered r₁.scopes layers') :
    Analysed layers r (xs ++ ys) (vs ++ ws) r₂ := by
  refine ⟨h.scopes.trans h'.scopes, ?_, h'.region.trans h.region, fun hd hr v hv => ?_⟩
  · rw [List.foldl_append, ← h.locals, h'.locals]
  · have hxs : Declares layers xs := hd.mono (List.subset_append_left xs ys)
    rcases List.mem_append.1 hv with hv | hv
    · exact h.covered hxs hr v hv
    · exact h'.covered (hl (hd.mono (List.subset_append_right xs ys))) (hc hxs hr) v hv

theorem congr (h : Analysed layers r xs vs r₁) (hxy : ∀ x, x ∈ xs ↔ x ∈ ys) :
    Analysed layers r ys vs r₁ :=
  ⟨h.scopes.congr hxy, h.locals, h.region, fun hd => h.covered (hd.mono fun x hx => (hxy x).1 hx)⟩

/-- Steps that visit nothing do not depend on the place. -/
theorem silent (hs : Extended xs r.scopes r₁.scopes) (hl : r₁.locals = r.locals)
    (hr : r₁.region = r.region) : Analysed layers r xs [] r₁ :=
  ⟨hs, hl, hr, by simp⟩

end Analysed

/-! ### Expressions -/

/-- What the analysis of an expression has done: it has entered its nodes into the table. -/
structure Looked (layers : List Layer) (r : Resolver) (nodes : List (Int × Token))
    (r' : Resolver) : Prop where
  scopes : r'.scopes = r.scopes
  locals : r'.locals = (nodes.map (Visit.ofMention layers r.scopes)).foldl Locals.enter r.locals
  region : r'.region = r.region

namespace Looked

variable {layers : List Layer} {r r₁ r₂ : Resolver} {ms ns : List (Int × Token)}

theorem refl (layers : List Layer) (r : Resolver) : Looked layers r [] r := ⟨rfl, rfl, rfl⟩

theorem trans (h : Looked layers r ms r₁) (h' : Looked layers r₁ ns r₂) :
    Looked layers r (ms ++ ns) r₂ := by
  refine ⟨h'.scopes.trans h.scopes, ?_, h'.region.trans h.region⟩
  rw [List.map_append, List.foldl_append, ← h.locals, h'.locals, h.scopes]

theorem locate (layers : List Layer) (r : Resolver) (id : Int) (name : Token) :
    Looked layers r [(id, name)] (r.locate id name.lexeme) := by
  unfold Resolver.locate
  split
  · rename_i d h
    exact ⟨rfl, by simp [Visit.ofMention, Locals.enter, h], rfl⟩
  · rename_i h
    exact ⟨rfl, by simp [Visit.ofMention, Locals.enter, h], rfl⟩

theorem analysed (h : Looked layers r ms r₁) :
    Analysed layers r [] (ms.map (Visit.ofMention layers r.scopes)) r₁ := by
  refine ⟨h.scopes ▸ Extended.refl _, h.locals, h.region, fun _ hr v hv => ?_⟩
  obtain ⟨m, -, rfl⟩ := List.mem_map.1 hv
  exact hr

/-- A step that comes after an expression at the same place. -/
theorem andThen {names : List String} {visits : List Visit} (h : Looked layers r ms r₁)
    (h' : Analysed layers r₁ names visits r₂) :
    Analysed layers r names (ms.map (Visit.ofMention layers r.scopes) ++ visits) r₂ :=
  h.analysed.trans h' id fun _ hc => hc.same h.analysed.scopes

end Looked

open Resolve

mutual

theorem Expr.looked (layers : List Layer) : ∀ (e : Expr) {r r' : Resolver},
    Resolve.expr e r = .ok () r' → Looked layers r e.mentions r'
  | .assign id name value, r, r', h => by
      obtain ⟨r₁, h₁, h₂⟩ := ok_bind.1 h
      cases h₂
      exact (Expr.looked layers value h₁).trans (Looked.locate layers r₁ id name)
  | .binary _ lhs rhs, r, r', h | .logical _ lhs rhs, r, r', h => by
      obtain ⟨r₁, h₁, h₂⟩ := ok_bind.1 h
      exact (Expr.looked layers lhs h₁).trans (Expr.looked layers rhs h₂)
  | .call callee _ args, r, r', h => by
      obtain ⟨r₁, h₁, h₂⟩ := ok_bind.1 h
      exact (Expr.looked layers callee h₁).trans (Expr.lookedAll layers args h₂)
  | .get object _, r, r', h => Expr.looked layers object h
  | .group inner, r, r', h => Expr.looked layers inner h
  | .literal _, r, r', h => by
      cases h
      exact .refl layers r
  | .set object _ value, r, r', h => by
      obtain ⟨r₁, h₁, h₂⟩ := ok_bind.1 h
      exact (Expr.looked layers value h₁).trans (Expr.looked layers object h₂)
  | .ternary cond _ yes none, r, r', h => by
      obtain ⟨r₁, h₁, h⟩ := ok_bind.1 h
      obtain ⟨r₂, h₂, h₃⟩ := ok_bind.1 h
      cases h₃
      have hyes := Expr.looked layers yes h₂
      exact (Expr.looked layers cond h₁).trans ⟨hyes.scopes, hyes.locals, hyes.region⟩
  | .ternary cond _ yes (some no), r, r', h => by
      obtain ⟨r₁, h₁, h⟩ := ok_bind.1 h
      obtain ⟨r₂, h₂, h₃⟩ := ok_bind.1 h
      exact (Expr.looked layers cond h₁).trans
        ((Expr.looked layers yes h₂).trans (Expr.looked layers no h₃))
  | .unary _ operand, r, r', h => Expr.looked layers operand h
  | .variable id name, r, r', h => by
      simp only [Resolve.expr, Resolve.reference] at h
      split_ifs at h
      cases h
      exact .locate layers r id name

theorem Expr.lookedAll (layers : List Layer) : ∀ (es : List Expr) {r r' : Resolver},
    Resolve.exprs es r = .ok () r' → Looked layers r (Expr.mentionsAll es) r'
  | [], r, r', h => by
      cases h
      exact .refl layers r
  | e :: es, r, r', h => by
      obtain ⟨r₁, h₁, h₂⟩ := ok_bind.1 h
      exact (Expr.looked layers e h₁).trans (Expr.lookedAll layers es h₂)

end

/-! ### Statements -/

/-- Names that are declared and defined at once, one after another. -/
theorem extended_putAll (names : List Token) : ∀ r : Resolver,
    Extended (names.map Token.lexeme) r.scopes
      (names.foldl (fun r name => (r.put name.lexeme false).put name.lexeme true) r).scopes ∧
    (names.foldl (fun r name => (r.put name.lexeme false).put name.lexeme true) r).locals =
      r.locals := by
  induction names with
  | nil => exact fun r => ⟨.refl _, rfl⟩
  | cons name names ih =>
    intro r
    obtain ⟨hs, hl⟩ := ih ((r.put name.lexeme false).put name.lexeme true)
    refine ⟨?_, by simpa using hl⟩
    have := (r.extended_put name.lexeme false).trans
      ((Resolver.extended_put _ name.lexeme true).trans hs)
    exact this.congr (by simp)

/-- A name that is declared and defined at once. -/
theorem Analysed.declare {layers : List Layer} {name : Token} {r r' : Resolver}
    (h : (do Resolve.declare name; Resolve.define name : Resolve) r = .ok () r') :
    Analysed layers r [name.lexeme] [] r' := by
  cases h
  have := (r.extended_put name.lexeme false).trans (Resolver.extended_put _ name.lexeme true)
  exact .silent (this.congr (by simp)) (by simp) (by simp)

/-- A name that is declared and defined before a further step. -/
theorem Analysed.named (layers : List Layer) {name : Token} {rest : Resolve} {r r' : Resolver}
    (h : (do Resolve.declare name; Resolve.define name; rest : Resolve) r = .ok () r') :
    ∃ r₁, after (do Resolve.declare name; Resolve.define name) r = r₁ ∧
      Analysed layers r [name.lexeme] [] r₁ ∧ rest r₁ = .ok () r' := by
  obtain ⟨r₂, h₂, h⟩ := ok_bind.1 h
  obtain ⟨r₁, h₁, hrest⟩ := ok_bind.1 h
  have hd : (do Resolve.declare name; Resolve.define name : Resolve) r = .ok () r₁ :=
    ok_bind.2 ⟨r₂, h₂, h₁⟩
  exact ⟨r₁, after_of_ok hd, .declare hd, hrest⟩

theorem Resolver.extended_opened (r : Resolver) (region : Region) (params : List Token) :
    Extended (params.map Token.lexeme) ([] :: r.scopes) (r.opened region params).scopes ∧
      (r.opened region params).locals = r.locals :=
  extended_putAll params { r with scopes := [] :: r.scopes, region }

/-- When the body of an area has been analysed, its scope holds the parameters and the names that
the body declares. -/
theorem Analysed.scope {layers : List Layer} {r r₁ : Resolver} {region : Region}
    {params : List Token} {names : List String} {vs : List Visit}
    (h : Analysed layers (r.opened region params) names vs r₁) :
    ∃ scope : Scope, r₁.scopes = scope :: r.scopes ∧
      ∀ x, x ∈ scope.names ↔ x ∈ params.map Token.lexeme ++ names := by
  obtain ⟨scope, e, hs⟩ := (r.extended_opened region params).1.trans h.scopes
  exact ⟨scope, e, fun x => by rw [hs]; simp [Bindings.names]⟩

/-- The end of an area: its scope is dropped. -/
theorem Analysed.close {layers : List Layer} {area : Area} {r r₁ : Resolver} {region : Region}
    {params : List Token} {names : List String} {vs : List Visit}
    (ha : params.map Token.lexeme ++ names ⊆ area.declared)
    (h : Analysed ({ area, settled := params.map Token.lexeme } :: layers)
      (r.opened region params) names vs r₁) :
    Analysed layers r [] vs { r₁ with scopes := r₁.scopes.tail, region := r.region } := by
  obtain ⟨hs, hl⟩ := r.extended_opened region params
  obtain ⟨scope, e, -⟩ := h.scope
  obtain ⟨hparams, hnames⟩ := List.append_subset.1 ha
  refine ⟨?_, ?_, rfl, fun _ hr => h.covered hnames ?_⟩
  · rw [e]
    exact Extended.refl _
  · show r₁.locals = _
    rw [h.locals, hl]
  · obtain ⟨scope', e', hs'⟩ := hs
    rw [e']
    refine .cons (fun x hx => ?_) hr
    have hx : x ∈ params.map Token.lexeme := by simpa [Bindings.names] using (hs' x).1 hx
    exact ⟨hparams hx, Or.inl hx⟩

theorem ok_function {region : Region} {name : Token} {params : List Token} {body : List Stmt}
    {r r' : Resolver} (h : Resolve.function region (.mk name params body) r = .ok () r') :
    ∃ r₁, Resolve.stmts body (r.opened region params) = .ok () r₁ ∧
      r' = { r₁ with scopes := r₁.scopes.tail, region := r.region } := by
  rw [Resolve.function] at h
  obtain ⟨r₂, h₂, rfl⟩ := ok_inRegion h
  obtain ⟨r₁, h₁, rfl⟩ := ok_inScope h₂
  obtain ⟨r₀, h₀, h₁⟩ := ok_bind.1 h₁
  cases h₀
  exact ⟨r₁, h₁, rfl⟩

theorem Stmt.declared_cases (s : Stmt) : ∀ x ∈ s.declared, x ∈ s.settles ∨ x ∈ s.doubtful := by
  intro x hx
  by_cases h : x ∈ s.settles
  · exact Or.inl h
  · exact Or.inr (List.mem_filter.2 ⟨hx, by simpa using h⟩)

mutual

theorem Stmt.analysed (layers : List Layer) : ∀ (s : Stmt) {r r' : Resolver},
    Resolve.stmt s r = .ok () r' → Analysed layers r s.declared (s.visits layers r) r'
  | .block body, r, r', h => by
      obtain ⟨r₁, h₁, rfl⟩ := ok_inScope h
      have hb := Stmt.analysedAll ({ area := .block body } :: layers) body h₁
      have hr : ({ r₁ with scopes := r₁.scopes.tail } : Resolver) =
          { r₁ with scopes := r₁.scopes.tail, region := r.region } := by
        rw [show r.region = r₁.region from hb.region.symm]
      rw [hr]
      exact @Analysed.close layers (.block body) r r₁ r.region [] _ _ (List.Subset.refl _) hb
  | .classDecl name methods, r, r', h => by
      obtain ⟨r₁, e, hname, h₁⟩ := Analysed.named layers h
      rw [Stmt.visits, e]
      exact hname.trans (FunDecl.analysedAll (settle [name.lexeme] layers) .method methods h₁)
        (fun hd => hd.settle _) fun hd hc => hc.settle hname.scopes hd
  | .expr value, r, r', h | .print value, r, r', h => (Expr.looked layers value h).analysed
  | .function decl, r, r', h => by
      obtain ⟨r₁, e, hname, h₁⟩ := Analysed.named layers h
      rw [Stmt.visits, e]
      exact hname.trans (FunDecl.analysed (settle [decl.name.lexeme] layers) .function decl h₁)
        (fun hd => hd.settle _) fun hd hc => hc.settle hname.scopes hd
  | .branch cond yes none, r, r', h => by
      obtain ⟨r₁, h₁, h₂⟩ := ok_bind.1 h
      rw [Stmt.visits, after_of_ok h₁]
      exact (Expr.looked layers cond h₁).andThen (Stmt.analysed layers yes h₂)
  | .branch cond yes (some no), r, r', h => by
      obtain ⟨r₁, h₁, h⟩ := ok_bind.1 h
      obtain ⟨r₂, h₂, h₃⟩ := ok_bind.1 h
      have hyes := Stmt.analysed layers yes h₂
      have hno := Stmt.analysed (doubt yes.declared layers) no h₃
      rw [Stmt.visits, after_of_ok h₁, after_of_ok (ok_bind.2 ⟨r₁, h₁, h₂⟩)]
      exact (Expr.looked layers cond h₁).andThen
        (hyes.trans hno (fun hd => hd.doubt _) fun hd hc => hc.doubt hyes.scopes hd)
  | .ret keyword none, r, r', h => by
      rw [ok_checkReturn h]
      exact .refl _ r
  | .ret keyword (some value), r, r', h => by
      obtain ⟨r₁, h₁, h₂⟩ := ok_bind.1 h
      cases ok_checkReturn h₁
      exact (Expr.looked layers value h₂).analysed
  | .varDecl name none, r, r', h => by
      obtain ⟨r₁, h₁, h₂⟩ := ok_bind.1 h
      cases ok_checkFresh h₁
      exact Analysed.declare h₂
  | .varDecl name (some init), r, r', h => by
      obtain ⟨r₁, h₁, h⟩ := ok_bind.1 h
      cases ok_checkFresh h₁
      obtain ⟨r₂, h₂, h⟩ := ok_bind.1 h
      obtain ⟨r₃, h₃, h₄⟩ := ok_bind.1 h
      cases h₂
      cases h₄
      -- the name is declared before its initialiser, and ready after it
      have hput := r.extended_put name.lexeme false
      have hinit := (Expr.looked (doubt [name.lexeme] layers) init h₃).analysed
      have hlast := Resolver.extended_put r₃ name.lexeme true
      have hdone := hinit.trans
        (@Analysed.silent (doubt [name.lexeme] layers) _ _ _ hlast (by simp) (by simp)) id
        fun _ hc => hc.same hinit.scopes
      have hall := (@Analysed.silent layers _ _ _ hput (by simp) (by simp)).trans hdone
        (fun hd => hd.doubt _) fun hd hc => hc.doubt hput hd
      rw [List.append_nil] at hall
      exact hall.congr (by simp [Stmt.declared])
  | .loop cond body, r, r', h => by
      obtain ⟨r₁, h₁, h₂⟩ := ok_bind.1 h
      rw [Stmt.visits, after_of_ok h₁]
      exact (Expr.looked layers cond h₁).andThen (Stmt.analysed layers body h₂)

theorem FunDecl.analysed (layers : List Layer) (region : Region) : ∀ (f : FunDecl)
    {r r' : Resolver}, Resolve.function region f r = .ok () r' →
    Analysed layers r [] (f.visits layers region r) r'
  | .mk name params body, r, r', h => by
      obtain ⟨r₁, h₁, rfl⟩ := ok_function h
      have hbody := Stmt.analysedAll
        ({ area := .call (.mk name params body), settled := params.map Token.lexeme } :: layers)
        body h₁
      exact hbody.close (List.Subset.refl _)

theorem Stmt.analysedAll (layers : List Layer) : ∀ (ss : List Stmt) {r r' : Resolver},
    Resolve.stmts ss r = .ok () r' →
    Analysed layers r (ss.flatMap Stmt.declared) (Stmt.visitsAll layers r ss) r'
  | [], r, r', h => by
      cases h
      exact .refl _ r
  | s :: ss, r, r', h => by
      obtain ⟨r₁, h₁, h₂⟩ := ok_bind.1 h
      have hs := Stmt.analysed layers s h₁
      rw [List.flatMap_cons, Stmt.visitsAll, after_of_ok h₁]
      exact hs.trans (Stmt.analysedAll _ ss h₂) (fun hd => (hd.doubt _).settle _)
        fun hd hc => hc.extend hs.scopes hd s.declared_cases

theorem FunDecl.analysedAll (layers : List Layer) (region : Region) : ∀ (fs : List FunDecl)
    {r r' : Resolver}, Resolve.functions region fs r = .ok () r' →
    Analysed layers r [] (FunDecl.visitsAll layers region r fs) r'
  | [], r, r', h => by
      cases h
      exact .refl _ r
  | f :: fs, r, r', h => by
      obtain ⟨r₁, h₁, h₂⟩ := ok_bind.1 h
      have hf := FunDecl.analysed layers region f h₁
      rw [FunDecl.visitsAll, after_of_ok h₁]
      exact hf.trans (FunDecl.analysedAll layers region fs h₂) id fun _ hc => hc.same hf.scopes

end

/-! ### Programs -/

theorem Locals.distance?_blank (nodes : Nat) (id : Int) :
    (Locals.blank nodes).distance? id = none := by
  unfold Locals.distance? Locals.blank
  split_ifs with h
  · rfl
  · rw [Array.getElem?_replicate]
    split_ifs <;> rfl

theorem Locals.distance?_enter (locals : Locals) {v : Visit} (h : 0 ≤ v.id) {id : Int}
    (hne : id ≠ v.id) : (locals.enter v).distance? id = locals.distance? id := by
  unfold Locals.enter
  split
  · rw [Locals.distance?_record _ h, if_neg hne]
  · rfl

theorem Locals.distance?_enter_self {locals : Locals} {v : Visit} (h : 0 ≤ v.id)
    (hn : locals.distance? v.id = none) :
    (locals.enter v).distance? v.id = Resolver.depth? v.scopes v.name := by
  unfold Locals.enter
  split
  · rename_i d hd
    rw [Locals.distance?_record _ h, if_pos rfl, hd]
  · rename_i hd
    rw [hn, hd]

theorem Locals.distance?_foldl_of_notMem {visits : List Visit} (hv : ∀ v ∈ visits, 0 ≤ v.id)
    {id : Int} (h : id ∉ visits.map Visit.id) : ∀ locals : Locals,
    (visits.foldl Locals.enter locals).distance? id = locals.distance? id := by
  induction visits with
  | nil => exact fun _ => rfl
  | cons v vs ih =>
    intro locals
    simp only [List.forall_mem_cons] at hv
    simp only [List.map_cons, List.mem_cons, not_or] at h
    rw [List.foldl_cons, ih hv.2 h.2, Locals.distance?_enter _ hv.1 h.1]

/-- Visits of different nodes do not disturb each other's entries. -/
theorem Locals.distance?_foldl {visits : List Visit} (hv : ∀ v ∈ visits, 0 ≤ v.id)
    (hd : (visits.map Visit.id).Nodup) : ∀ {locals : Locals},
    (∀ v ∈ visits, locals.distance? v.id = none) → ∀ v ∈ visits,
    (visits.foldl Locals.enter locals).distance? v.id = Resolver.depth? v.scopes v.name := by
  induction visits with
  | nil => simp
  | cons v vs ih =>
    intro locals hn w hw
    simp only [List.forall_mem_cons] at hv hn
    simp only [List.map_cons, List.nodup_cons] at hd
    rw [List.foldl_cons]
    rcases List.mem_cons.1 hw with rfl | hw
    · rw [Locals.distance?_foldl_of_notMem hv.2 hd.1, Locals.distance?_enter_self hv.1 hn.1]
    · refine ih hv.2 hd.2 (fun x hx => ?_) w hw
      rw [Locals.distance?_enter _ hv.1 fun e => hd.1 (e ▸ List.mem_map_of_mem hx)]
      exact hn.2 x hx

/-- The visits of a program that is analysed from scratch. -/
def Program.visits (p : Program) : List Visit :=
  Stmt.visitsAll [] { locals := Locals.blank p.nodes } p.stmts

theorem Program.analysed {p : Program} (h : p.resolve.error? = none) :
    ∃ r : Resolver, p.resolve.locals = r.locals ∧
      Analysed [] { locals := Locals.blank p.nodes } (p.stmts.flatMap Stmt.declared) p.visits
        r := by
  unfold Program.resolve Resolver.resolve at *
  dsimp only at *
  split at h
  · rename_i r e
    exact ⟨r, rfl, Stmt.analysedAll [] p.stmts e⟩
  · cases h

/-- The table tells, for every visit, how many scopes out its name is declared. -/
theorem distance?_of_visit {p : Program} (h : p.resolve.error? = none)
    (hid : ∀ id ∈ Stmt.idsAll p.stmts, 0 ≤ id) (hd : (Stmt.idsAll p.stmts).Nodup) {v : Visit}
    (hv : v ∈ p.visits) :
    p.resolve.locals.distance? v.id = Resolver.depth? v.scopes v.name := by
  obtain ⟨r, e, ha⟩ := Program.analysed h
  have hp := Stmt.perm_visitsAll [] { locals := Locals.blank p.nodes } p.stmts
  rw [e, ha.locals]
  refine Locals.distance?_foldl (fun w hw => ?_) (hp.nodup_iff.2 hd)
    (fun w _ => Locals.distance?_blank _ _) v hv
  exact hid _ (hp.mem_iff.1 (List.mem_map_of_mem hw))

/-- At every visit one scope is open for every layer, and belongs to it. -/
theorem covered_of_visit {p : Program} (h : p.resolve.error? = none) {v : Visit}
    (hv : v ∈ p.visits) : Covered v.scopes v.layers := by
  obtain ⟨r, -, ha⟩ := Program.analysed h
  exact ha.covered trivial .nil v hv

end Wandika
