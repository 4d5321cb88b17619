import Wandika.Proofs.Machine.Trail

/-!
# Places of code and frames

A place is given by its layers: the areas around it, each with the names that are settled there.

* `SourceUnit.HasNode`, `HasExpr`, `HasStmt`, `HasStmts`, `HasFun`: code that stands at a place of a
  unit;
* `Trail.Holds`: a frame that lies at a place;
* `Trail.Knows`, `KnowsValue`: functions whose frames lie at the places of their declarations;
* `Trail.Grows`: what a longer record and more frames keep.
-/

namespace Wandika

/-! ### Code -/

namespace SourceUnit

variable {u : SourceUnit} {layers : List Layer}

/-- The variable node stands in the unit, at the place of the layers. -/
def HasNode (u : SourceUnit) (layers : List Layer) (id : Int) (name : Token) : Prop :=
  ∃ scopes, Visit.ofMention layers scopes (id, name) ∈ u.visits

/-- The expression stands in the unit, at the place of the layers. -/
def HasExpr (u : SourceUnit) (layers : List Layer) (e : Expr) : Prop :=
  ∃ scopes, e.visits layers scopes ⊆ u.visits

/-- The statement stands in the unit, at the place of the layers. -/
def HasStmt (u : SourceUnit) (layers : List Layer) (s : Stmt) : Prop :=
  Declares layers s.declared ∧ ∃ r, s.visits layers r ⊆ u.visits

/-- The statements stand in the unit, at the place of the layers. -/
def HasStmts (u : SourceUnit) (layers : List Layer) (ss : List Stmt) : Prop :=
  Declares layers (ss.flatMap Stmt.declared) ∧ ∃ r, Stmt.visitsAll layers r ss ⊆ u.visits

/-- The function stands in the unit, at the place of the layers. -/
def HasFun (u : SourceUnit) (layers : List Layer) (f : FunDecl) : Prop :=
  ∃ region r, f.visits layers region r ⊆ u.visits

theorem HasExpr.of_mentions {e e' : Expr} (h : u.HasExpr layers e)
    (hs : e'.mentions ⊆ e.mentions) : u.HasExpr layers e' := by
  obtain ⟨scopes, hv⟩ := h
  exact ⟨scopes, fun v hm => hv (List.map_subset _ hs hm)⟩

theorem HasExpr.node {e : Expr} {id : Int} {name : Token} (h : u.HasExpr layers e)
    (hm : (id, name) ∈ e.mentions) : u.HasNode layers id name := by
  obtain ⟨scopes, hv⟩ := h
  exact ⟨scopes, hv (List.mem_map_of_mem hm)⟩

theorem HasExpr.arguments {callee : Expr} {paren : Option Token} {args : List Expr}
    (h : u.HasExpr layers (.call callee paren args)) : ∀ e ∈ args, u.HasExpr layers e := by
  have mem : ∀ (es : List Expr), ∀ e ∈ es, e.mentions ⊆ Expr.mentionsAll es := by
    intro es
    induction es with
    | nil => simp
    | cons e es ih =>
      intro e' he
      rw [Expr.mentionsAll]
      rcases List.mem_cons.1 he with rfl | he
      · exact List.subset_append_left _ _
      · exact List.subset_append_of_subset_right _ (ih e' he)
  intro e he
  refine h.of_mentions ?_
  rw [Expr.mentions]
  exact List.subset_append_of_subset_right _ (mem args e he)

theorem HasStmts.head {s : Stmt} {ss : List Stmt} (h : u.HasStmts layers (s :: ss)) :
    u.HasStmt layers s := by
  obtain ⟨hd, r, hv⟩ := h
  rw [Stmt.visitsAll, List.append_subset] at hv
  exact ⟨hd.mono (by simp), r, hv.1⟩

theorem HasStmts.tail {s : Stmt} {ss : List Stmt} (h : u.HasStmts layers (s :: ss)) :
    u.HasStmts (settle s.settles (doubt s.doubtful layers)) ss := by
  obtain ⟨hd, r, hv⟩ := h
  rw [Stmt.visitsAll, List.append_subset] at hv
  exact ⟨((hd.mono (by simp)).doubt _).settle _, _, hv.2⟩

theorem HasStmt.block {body : List Stmt} (h : u.HasStmt layers (.block body)) :
    u.HasStmts ({ area := .block body } :: layers) body := by
  obtain ⟨-, r, hv⟩ := h
  exact ⟨by simp [Declares, Area.declared, Area.params, Area.body], _, hv⟩

theorem HasStmt.function {decl : FunDecl} (h : u.HasStmt layers (.function decl)) :
    u.HasFun (settle [decl.name.lexeme] layers) decl := by
  obtain ⟨-, r, hv⟩ := h
  exact ⟨_, _, hv⟩

theorem HasFun.body {decl : FunDecl} (h : u.HasFun layers decl) :
    u.HasStmts ({ area := .call decl, settled := decl.params.map Token.lexeme } :: layers)
      decl.body := by
  obtain ⟨region, r, hv⟩ := h
  cases decl with
  | mk name params body =>
    rw [FunDecl.visits] at hv
    exact ⟨by simp [Declares, Area.declared, Area.body, FunDecl.body], _, hv⟩

theorem HasStmt.value {s : Stmt} {e : Expr} (h : u.HasStmt layers s)
    (hs : s = .expr e ∨ s = .print e ∨ ∃ keyword, s = .ret keyword (some e)) :
    u.HasExpr layers e := by
  obtain ⟨-, r, hv⟩ := h
  rcases hs with rfl | rfl | ⟨keyword, rfl⟩ <;> exact ⟨_, hv⟩

theorem HasStmt.init {name : Token} {init : Expr}
    (h : u.HasStmt layers (.varDecl name (some init))) :
    u.HasExpr (doubt [name.lexeme] layers) init := by
  obtain ⟨-, r, hv⟩ := h
  exact ⟨_, hv⟩

theorem HasStmt.branch {cond : Expr} {yes : Stmt} {no : Option Stmt}
    (h : u.HasStmt layers (.branch cond yes no)) :
    u.HasExpr layers cond ∧ u.HasStmt layers yes ∧
      ∀ s ∈ no, u.HasStmt (doubt yes.declared layers) s := by
  obtain ⟨hd, r, hv⟩ := h
  cases no with
  | none =>
    rw [Stmt.visits, List.append_subset] at hv
    exact ⟨⟨_, hv.1⟩, ⟨hd, _, hv.2⟩, by simp⟩
  | some no =>
    rw [Stmt.visits, List.append_subset, List.append_subset] at hv
    rw [Stmt.declared] at hd
    refine ⟨⟨_, hv.1⟩, ⟨hd.mono (List.subset_append_left _ _), _, hv.2.1⟩, ?_⟩
    rintro s ⟨⟩
    exact ⟨(hd.mono (List.subset_append_right _ _)).doubt _, _, hv.2.2⟩

theorem HasStmt.loop {cond : Expr} {body : Stmt} (h : u.HasStmt layers (.loop cond body)) :
    u.HasExpr layers cond ∧ u.HasStmt layers body := by
  obtain ⟨hd, r, hv⟩ := h
  rw [Stmt.visits, List.append_subset] at hv
  exact ⟨⟨_, hv.1⟩, hd, _, hv.2⟩

end SourceUnit

/-! ### Frames and functions -/

namespace Trail

/-- Going outwards from the frame, the frames were made by the areas of the layers, each binds the
names that are settled in its layer, and the global frame comes last. -/
def Holds (t : Trail) (fs : Frames Value) (u : SourceUnit) : List Layer → FrameId → Prop
  | [], frame => frame = globalFrame
  | layer :: layers, frame =>
      frame ≠ globalFrame ∧ t.origin? frame = some ⟨u, layer.area⟩ ∧
        (∀ x ∈ layer.settled, (fs.lookup frame x).isSome) ∧
        ∃ outer, fs.enclosing? frame = some outer ∧ t.Holds fs u layers outer

/-- The function was declared by a unit of the run, carries its table, and its frame lies at the
place where it is declared. -/
def Knows (t : Trail) (fs : Frames Value) (f : Closure) : Prop :=
  ∃ u layers, t.declarer? f.id = some u ∧ f.locals = u.locals ∧ t.Holds fs u layers f.frame ∧
    u.HasFun layers f.decl

/-- All functions that the value holds are known. -/
def KnowsValue (t : Trail) (fs : Frames Value) (v : Value) : Prop :=
  ∀ f ∈ v.closures, t.Knows fs f

/-- The record and the frames have grown. -/
structure Grows (t : Trail) (fs : Frames Value) (t' : Trail) (fs' : Frames Value) : Prop where
  origin : ∀ {f o}, t.origin? f = some o → t'.origin? f = some o
  declarer : ∀ {n u}, t.declarer? n = some u → t'.declarer? n = some u
  enclosing : ∀ {f g}, fs.enclosing? f = some g → fs'.enclosing? f = some g
  bound : ∀ {f x}, (fs.lookup f x).isSome → (fs'.lookup f x).isSome

variable {t t' : Trail} {fs fs' : Frames Value} {u : SourceUnit}

theorem Grows.refl (t : Trail) (fs : Frames Value) : t.Grows fs t fs :=
  ⟨id, id, id, id⟩

theorem Grows.trans {t'' : Trail} {fs'' : Frames Value} (h : t.Grows fs t' fs')
    (h' : t'.Grows fs' t'' fs'') : t.Grows fs t'' fs'' :=
  ⟨h'.origin ∘ h.origin, h'.declarer ∘ h.declarer, h'.enclosing ∘ h.enclosing,
    h'.bound ∘ h.bound⟩

theorem Holds.mono (hg : Grows t fs t' fs') : ∀ {layers : List Layer} {frame : FrameId},
    t.Holds fs u layers frame → t'.Holds fs' u layers frame
  | [], _, h => h
  | _ :: _, _, ⟨hne, ho, hs, outer, he, h⟩ =>
      ⟨hne, hg.origin ho, fun x hx => hg.bound (hs x hx), outer, hg.enclosing he, h.mono hg⟩

theorem Holds.settle {layers : List Layer} {frame : FrameId} (h : t.Holds fs u layers frame)
    {names : List String} (hb : ∀ x ∈ names, (fs.lookup frame x).isSome) :
    t.Holds fs u (settle names layers) frame := by
  cases layers with
  | nil => exact h
  | cons layer layers =>
    obtain ⟨hne, ho, hs, hout⟩ := h
    refine ⟨hne, ho, fun x hx => ?_, hout⟩
    rcases List.mem_append.1 hx with hx | hx
    · exact hs x hx
    · exact hb x hx

theorem Holds.doubt {layers : List Layer} {frame : FrameId} (h : t.Holds fs u layers frame)
    (names : List String) : t.Holds fs u (doubt names layers) frame := by
  cases layers with
  | nil => exact h
  | cons layer layers => exact h

theorem Knows.mono (hg : Grows t fs t' fs') {f : Closure} (h : t.Knows fs f) : t'.Knows fs' f := by
  obtain ⟨u, layers, hd, hl, hh, hf⟩ := h
  exact ⟨u, layers, hg.declarer hd, hl, hh.mono hg, hf⟩

theorem KnowsValue.mono (hg : Grows t fs t' fs') {v : Value} (h : t.KnowsValue fs v) :
    t'.KnowsValue fs' v :=
  fun f hf => (h f hf).mono hg

theorem knowsValue_datum (d : Datum) : t.KnowsValue fs (.datum d) := by
  intro f hf
  cases hf

/-- The frame that many steps out is the frame of that layer, and after the last layer comes the
global frame. -/
theorem Holds.ancestor? : ∀ {layers : List Layer} {frame : FrameId},
    t.Holds fs u layers frame →
    (∀ (i : Nat) (layer : Layer), layers[i]? = some layer → ∃ f, fs.ancestor? frame i = some f ∧
      f ≠ globalFrame ∧ t.origin? f = some ⟨u, layer.area⟩ ∧
      ∀ x ∈ layer.settled, (fs.lookup f x).isSome) ∧
    fs.ancestor? frame layers.length = some globalFrame
  | [], frame, h => ⟨by simp, by rw [h]; rfl⟩
  | layer :: layers, frame, ⟨hne, ho, hs, outer, he, h⟩ => by
      obtain ⟨ih, ihlast⟩ := Holds.ancestor? h
      refine ⟨fun i l hl => ?_, by simp [Frames.ancestor?, he, ihlast]⟩
      cases i with
      | zero =>
        obtain rfl : layer = l := by simpa using hl
        exact ⟨frame, rfl, hne, ho, hs⟩
      | succ i =>
        obtain ⟨f, ha, hf⟩ := ih i l (by simpa using hl)
        exact ⟨f, by simpa [Frames.ancestor?, he] using ha, hf⟩

end Trail

end Wandika
