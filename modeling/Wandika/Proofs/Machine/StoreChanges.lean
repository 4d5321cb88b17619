import Wandika.Proofs.Machine.Alignment

/-!
# Changes of the store

The record and the store go on fitting each other when a name is bound, an object is made or given
a field, a function or a class is declared, and a block or a call makes a frame.
-/

namespace Wandika

/-! ### Frames -/

theorem Frames.lt_of_frame? {α : Type} {fs : Frames α} {f : FrameId} {frame : Frame α}
    (h : fs.frame? f = some frame) : f < fs.size :=
  (Array.getElem?_eq_some_iff.1 h).1

theorem Frames.lt_of_lookup {α : Type} {fs : Frames α} {f : FrameId} {x : String}
    (h : (fs.lookup f x).isSome) : f < fs.size := by
  obtain ⟨v, hv⟩ := Option.isSome_iff_exists.1 h
  obtain ⟨frame, hf, -⟩ := Option.bind_eq_some_iff.1 hv
  exact Frames.lt_of_frame? hf

theorem Frames.enclosing?_push {α : Type} {fs : Frames α} {frame : Frame α} {f g : FrameId}
    (h : fs.enclosing? f = some g) : (fs.push frame).enclosing? f = some g := by
  obtain ⟨_, hf, -⟩ := Option.bind_eq_some_iff.1 h
  rwa [Frames.enclosing?, Frames.frame?_push_of_lt fs frame (Frames.lt_of_frame? hf)]

theorem Frames.lookup_push_of_lt {α : Type} {fs : Frames α} {frame : Frame α} {f : FrameId}
    (h : f < fs.size) (x : String) : (fs.push frame).lookup f x = fs.lookup f x := by
  rw [Frames.lookup, Frames.lookup, Frames.frame?_push_of_lt fs frame h]

theorem Frames.lookup_push_size {α : Type} {fs : Frames α} {frame : Frame α} (x : String) :
    (fs.push frame).lookup fs.size x = frame.bindings.get? x := by
  simp [Frames.lookup]

/-- A frame of the new frames is an old one or the frame that was made. -/
theorem Frames.lookup_push {α : Type} {fs : Frames α} {frame : Frame α} {f : FrameId} {x : String}
    {v : α} (h : (fs.push frame).lookup f x = some v) :
    fs.lookup f x = some v ∨ f = fs.size ∧ frame.bindings.get? x = some v := by
  have hlt := Frames.lt_of_lookup (by rw [h]; rfl : ((fs.push frame).lookup f x).isSome)
  rw [Frames.size_push] at hlt
  rcases Nat.lt_succ_iff_lt_or_eq.1 hlt with hlt | rfl
  · rw [Frames.lookup_push_of_lt hlt] at h
    exact Or.inl h
  · rw [Frames.lookup_push_size] at h
    exact Or.inr ⟨rfl, h⟩

section Changes

variable {t : Trail} {store : Store}

theorem Trail.grows_define {fs : Frames Value} {f : FrameId} (hf : f < fs.size) (x : String)
    (v : Value) : t.Grows fs t (fs.define f x v) := by
  refine ⟨id, id, fun h => by rwa [Frames.enclosing?_define], fun {g y} h => ?_⟩
  rw [Frames.lookup_define fs hf]
  split_ifs
  · rfl
  · exact h

/-- A known value may be bound to a name that the area of the frame declares. -/
theorem StoreOk.define (h : StoreOk t store) {f : FrameId} (hf : f < store.frames.size)
    {x : String} {v : Value} (hv : t.KnowsValue (store.frames.define f x v) v)
    (hx : f ≠ globalFrame → ∃ o, t.origin? f = some o ∧ x ∈ o.area.declared) :
    StoreOk t (store.define f x v) := by
  have hg := t.grows_define hf x v
  refine ⟨?_, ?_, h.declarer_lt, ?_, fun hw => (h.field hw).mono hg, ?_⟩
  · exact (Frames.size_define _ _ _ _).symm ▸ h.size
  · intro g o ho
    exact (Frames.size_define _ _ _ _).symm ▸ h.origin_lt ho
  · intro g y w hw
    rw [Store.define, Frames.lookup_define _ hf] at hw
    split_ifs at hw
    · cases hw
      exact hv
    · exact (h.bound hw).mono hg
  · intro g y hne hb
    rw [Store.define, Frames.lookup_define _ hf] at hb
    split_ifs at hb with he
    · obtain ⟨rfl, rfl⟩ := he
      exact hx hne
    · exact h.declared hne hb

/-- A frame that is made by an area binds known values to names that the area declares. -/
theorem StoreOk.pushFrame (h : StoreOk t store) (t' : Trail) (o : Origin) (frame : Frame Value)
    (ho : t'.origin? = Function.update t.origin? store.frames.size (some o))
    (hd : t'.declarer? = t.declarer?)
    (hb : ∀ {x v}, frame.bindings.get? x = some v →
      t.KnowsValue store.frames v ∧ x ∈ o.area.declared) :
    t.Grows store.frames t' (store.frames.push frame) ∧ StoreOk t' (store.pushFrame frame) := by
  have hg : t.Grows store.frames t' (store.frames.push frame) := by
    refine ⟨fun {f o'} hf => ?_, fun hn => by rwa [hd], Frames.enclosing?_push, fun hx => ?_⟩
    · rw [ho, Function.update_of_ne (Nat.ne_of_lt (h.origin_lt hf))]
      exact hf
    · rwa [Frames.lookup_push_of_lt (Frames.lt_of_lookup hx)]
  refine ⟨hg, ?_, ?_, ?_, ?_, fun hw => (h.field hw).mono hg, ?_⟩
  · exact (Frames.size_push _ _).symm ▸ Nat.succ_pos _
  · intro f o' hf
    show f < (store.frames.push frame).size
    rw [Frames.size_push]
    rw [ho] at hf
    by_cases he : f = store.frames.size
    · exact he ▸ Nat.lt_succ_self _
    · rw [Function.update_of_ne he] at hf
      exact Nat.lt_succ_of_lt (h.origin_lt hf)
  · intro n u hn
    exact h.declarer_lt (hd ▸ hn)
  · intro f x v hv
    rcases Frames.lookup_push hv with hv | ⟨-, hv⟩
    · exact (h.bound hv).mono hg
    · exact (hb hv).1.mono hg
  · intro f x hne hx
    obtain ⟨v, hv⟩ := Option.isSome_iff_exists.1 hx
    rcases Frames.lookup_push hv with hv | ⟨hf, hv⟩
    · obtain ⟨o', ho', hd'⟩ := h.declared hne (by rw [hv]; rfl)
      exact ⟨o', hg.origin ho', hd'⟩
    · exact ⟨o, by rw [hf, ho, Function.update_self], (hb hv).2⟩

/-- Identities may be handed out, and functions that are numbered by them be recorded. -/
theorem StoreOk.reserve (h : StoreOk t store) {t' : Trail} {next : Nat}
    (hg : t.Grows store.frames t' store.frames) (ho : t'.origin? = t.origin?)
    (hd : ∀ {n u}, t'.declarer? n = some u → n < next) :
    StoreOk t' { store with nextId := next } := by
  refine ⟨h.size, fun hf => h.origin_lt (ho ▸ hf), hd, fun hv => (h.bound hv).mono hg,
    fun hv => (h.field hv).mono hg, fun hne hx => ?_⟩
  obtain ⟨o, hf, hx⟩ := h.declared hne hx
  exact ⟨o, hg.origin hf, hx⟩

/-- Where the run goes on does not matter to the store. -/
theorem StoreOk.moved (h : StoreOk t store) (u : SourceUnit) (callers : List SourceUnit) :
    t.Grows store.frames { t with unit := u, callers } store.frames ∧
      StoreOk { t with unit := u, callers } store :=
  have hg : t.Grows store.frames { t with unit := u, callers } store.frames := ⟨id, id, id, id⟩
  ⟨hg, h.reserve hg rfl h.declarer_lt⟩

theorem Store.field?_newObject {c : Class} {o : Object} {x : String} {v : Value}
    (h : (store.newObject c).2.field? o x = some v) : store.field? o x = some v := by
  simp only [Store.newObject, Store.field?, Array.getElem?_push] at h ⊢
  split_ifs at h
  · simp at h
  · exact h

theorem Store.field?_setField {owner o : Object} {name x : String} {v w : Value}
    (h : (store.setField owner name w).field? o x = some v) :
    v = w ∨ store.field? o x = some v := by
  simp only [Store.setField, Store.field?, Array.getElem?_modify] at h ⊢
  split_ifs at h with he
  · cases hb : store.objects[o.id]? with
    | none => simp [hb] at h
    | some bs =>
      simp only [hb, Option.map_some, Option.bind_some, Bindings.get?_put] at h ⊢
      split_ifs at h
      · exact Or.inl (Option.some.inj h).symm
      · exact Or.inr h
  · exact Or.inr h

theorem StoreOk.newObject (h : StoreOk t store) (c : Class) : StoreOk t (store.newObject c).2 :=
  ⟨h.size, h.origin_lt, h.declarer_lt, h.bound, fun hv => h.field (Store.field?_newObject hv),
    h.declared⟩

theorem StoreOk.setField (h : StoreOk t store) {o : Object} {name : String} {v : Value}
    (hv : t.KnowsValue store.frames v) : StoreOk t (store.setField o name v) := by
  refine ⟨h.size, h.origin_lt, h.declarer_lt, h.bound, fun hw => ?_, h.declared⟩
  rcases Store.field?_setField hw with rfl | hw
  · exact hv
  · exact h.field hw

/-! ### Declarations -/

theorem Overloads.mem_insert {f g : Closure} {gs : List Closure} (h : g ∈ Overloads.insert f gs) :
    g = f ∨ g ∈ gs := by
  induction gs with
  | nil => simpa [Overloads.insert] using h
  | cons g' gs ih =>
    simp only [Overloads.insert] at h
    split_ifs at h
    · simpa using h
    · rcases List.mem_cons.1 h with rfl | h
      · exact Or.inl rfl
      · exact Or.inr (List.mem_cons_of_mem _ h)
    · rcases List.mem_cons.1 h with rfl | h
      · exact Or.inr List.mem_cons_self
      · rcases ih h with rfl | h
        · exact Or.inl rfl
        · exact Or.inr (List.mem_cons_of_mem _ h)

/-- A declaration joins the new function with functions that were bound before. -/
theorem Store.mem_closures_joined {bound : Option Value} {f g : Closure} {id : Nat}
    (h : g ∈ (Store.joined bound f id).closures) :
    g = f ∨ ∃ v, bound = some v ∧ g ∈ v.closures := by
  unfold Store.joined at h
  dsimp only at h
  split at h
  · rename_i g'
    split_ifs at h
    · exact Or.inl (by simpa [Value.closures] using h)
    · rcases Overloads.mem_insert h with rfl | h
      · exact Or.inl rfl
      · exact Or.inr ⟨_, rfl, h⟩
  · rename_i o
    rcases Overloads.mem_insert h with rfl | h
    · exact Or.inl rfl
    · exact Or.inr ⟨_, rfl, h⟩
  · exact Or.inl (by simpa [Value.closures] using h)

section Declarations

variable {u : SourceUnit} {layers : List Layer} {frame : FrameId}

theorem StoreOk.frame_lt (h : StoreOk t store) (hh : t.Holds store.frames u layers frame) :
    frame < store.frames.size := by
  cases layers with
  | nil => exact hh ▸ h.size
  | cons layer layers => exact h.origin_lt hh.2.1

theorem Trail.Holds.declares {fs : Frames Value} (hh : t.Holds fs u layers frame) {x : String}
    (hx : Declares layers [x]) (hne : frame ≠ globalFrame) :
    ∃ o, t.origin? frame = some o ∧ x ∈ o.area.declared := by
  cases layers with
  | nil => exact absurd hh hne
  | cons layer layers => exact ⟨_, hh.2.1, hx (by simp)⟩

theorem lookup_define_self {fs : Frames Value} (hf : frame < fs.size) (x : String) (v : Value) :
    ((fs.define frame x v).lookup frame x).isSome := by
  rw [Frames.lookup_define fs hf, if_pos ⟨rfl, rfl⟩]
  rfl

/-- The frame at a place may bind what is declared there. -/
theorem StoreOk.bind (h : StoreOk t store) (hh : t.Holds store.frames u layers frame) {x : String}
    (hx : Declares layers [x]) {v : Value}
    (hv : t.KnowsValue (store.frames.define frame x v) v) :
    t.Grows store.frames t (store.frames.define frame x v) ∧
      StoreOk t (store.define frame x v) ∧
      ((store.frames.define frame x v).lookup frame x).isSome :=
  have hf := h.frame_lt hh
  ⟨t.grows_define hf x v, h.define hf hv (hh.declares hx), lookup_define_self hf x v⟩

theorem StoreOk.declareClass (h : StoreOk t store) (hh : t.Holds store.frames u layers frame)
    {x : String} (hx : Declares layers [x]) :
    t.Grows store.frames t (store.declareClass frame x).frames ∧
      StoreOk t (store.declareClass frame x) ∧
      ((store.declareClass frame x).frames.lookup frame x).isSome := by
  have h' : StoreOk t { store with nextId := store.nextId + 1 } :=
    h.reserve (.refl t _) rfl fun hn => Nat.lt_succ_of_lt (h.declarer_lt hn)
  exact h'.bind hh hx (t.knowsValue_datum _)

/-- A declaration of a function binds its name, and the new function is known: its frame binds its
own name as well. -/
theorem StoreOk.declareFunction (h : StoreOk t store) {decl : FunDecl}
    (hh : t.Holds store.frames t.unit layers frame)
    (hs : t.unit.HasStmt layers (.function decl)) :
    t.Grows store.frames (t.declare store.nextId)
        (store.declareFunction frame decl t.unit.locals).frames ∧
      StoreOk (t.declare store.nextId) (store.declareFunction frame decl t.unit.locals) ∧
      ((store.declareFunction frame decl t.unit.locals).frames.lookup frame
        decl.name.lexeme).isSome := by
  have hg : t.Grows store.frames (t.declare store.nextId) store.frames := by
    refine ⟨id, fun {n u} hn => ?_, id, id⟩
    have : n ≠ store.nextId := Nat.ne_of_lt (h.declarer_lt hn)
    simpa [Trail.declare, Function.update_of_ne this] using hn
  have h' : StoreOk (t.declare store.nextId) { store with nextId := store.nextId + 2 } := by
    refine h.reserve hg rfl fun {n u} hn => ?_
    by_cases he : n = store.nextId
    · omega
    · simp only [Trail.declare, Function.update_of_ne he] at hn
      exact Nat.lt_add_right 2 (h.declarer_lt hn)
  have hh' := hh.mono hg
  have hf := h.frame_lt hh
  -- whatever is bound to the name, the frame then lies at the place inside the declaration
  have known : ∀ v, v = Store.joined (store.frames.lookup frame decl.name.lexeme)
      ⟨store.nextId, decl, frame, t.unit.locals⟩ (store.nextId + 1) →
      (t.declare store.nextId).KnowsValue (store.frames.define frame decl.name.lexeme v) v := by
    intro v hv
    have hgd := (t.declare store.nextId).grows_define hf decl.name.lexeme v
    intro f hm
    rw [hv] at hm
    rcases Store.mem_closures_joined hm with rfl | ⟨w, hw, hm⟩
    · refine ⟨t.unit, settle [decl.name.lexeme] layers, by simp [Trail.declare], rfl, ?_,
        hs.function⟩
      refine (hh'.mono hgd).settle fun x hx => ?_
      rw [List.mem_singleton.1 hx]
      exact lookup_define_self hf _ v
    · exact (((h.bound hw).mono hg) f hm).mono hgd
  obtain ⟨hgd, hst, hb⟩ := h'.bind hh' hs.1 (known _ rfl)
  exact ⟨hg.trans hgd, hst, hb⟩

/-! ### New frames -/

theorem Bindings.get?_foldl_put {ps : List (Token × Value)} {x : String} : ∀ {bs : Bindings Value},
    ((ps.foldl (fun bs p => Bindings.put bs p.1.lexeme p.2) bs).get? x).isSome ↔
      x ∈ ps.map (·.1.lexeme) ∨ (bs.get? x).isSome := by
  induction ps with
  | nil => simp
  | cons p ps ih =>
    intro bs
    rw [List.foldl_cons, ih, Bindings.get?_put, List.map_cons, List.mem_cons]
    split_ifs with h <;> simp [h]

theorem Bindings.mem_of_get?_foldl_put {ps : List (Token × Value)} {x : String} {v : Value} :
    ∀ {bs : Bindings Value},
    (ps.foldl (fun bs p => Bindings.put bs p.1.lexeme p.2) bs).get? x = some v →
      v ∈ ps.map (·.2) ∨ bs.get? x = some v := by
  induction ps with
  | nil => exact fun h => Or.inr h
  | cons p ps ih =>
    intro bs h
    rw [List.foldl_cons] at h
    rw [List.map_cons, List.mem_cons]
    rcases ih h with h | h
    · exact Or.inl (Or.inr h)
    · rw [Bindings.get?_put] at h
      split_ifs at h
      · exact Or.inl (Or.inl (Option.some.inj h).symm)
      · exact Or.inr h

/-- The frame of a call binds every parameter, and nothing else. -/
theorem isSome_bindParams (params : List Token) {args : List Value}
    (h : args.length = params.length) (x : String) :
    ((State.bindParams params args).get? x).isSome ↔ x ∈ params.map Token.lexeme := by
  have hz : (params.zip args).map (fun p => p.1.lexeme) = params.map Token.lexeme := by
    show (params.zip args).map (Token.lexeme ∘ Prod.fst) = _
    rw [← List.map_map, List.map_fst_zip h.ge]
  rw [← hz]
  exact Bindings.get?_foldl_put.trans (by simp)

theorem mem_of_bindParams {params : List Token} {args : List Value} {x : String} {v : Value}
    (h : (State.bindParams params args).get? x = some v) : v ∈ args := by
  rcases Bindings.mem_of_get?_foldl_put h with h | h
  · obtain ⟨p, hp, rfl⟩ := List.mem_map.1 h
    exact (List.of_mem_zip hp).2
  · simp at h

/-- A frame that is made inside a place lies one layer further in. -/
theorem Trail.Holds.push {t t' : Trail} {fs : Frames Value} {bs : Bindings Value} {area : Area}
    {settled doubtful : List String} (hh : t.Holds fs u layers frame)
    (hg : t.Grows fs t' (fs.push ⟨some frame, bs⟩)) (h0 : 0 < fs.size)
    (ho : t'.origin? fs.size = some ⟨u, area⟩) (hs : ∀ x ∈ settled, (bs.get? x).isSome) :
    t'.Holds (fs.push ⟨some frame, bs⟩) u (⟨area, settled, doubtful⟩ :: layers) fs.size := by
  refine ⟨Nat.ne_of_gt h0, ho, fun x hx => ?_, frame, ?_, hh.mono hg⟩
  · rw [Frames.lookup_push_size]
    exact hs x hx
  · simp [Frames.enclosing?]

theorem StoreOk.openBlock (h : StoreOk t store) (hh : t.Holds store.frames t.unit layers frame)
    (body : List Stmt) :
    t.Grows store.frames (t.openBlock store.frames.size body)
        (store.frames.push { enclosing := some frame }) ∧
      StoreOk (t.openBlock store.frames.size body)
        (store.pushFrame { enclosing := some frame }) ∧
      (t.openBlock store.frames.size body).Holds (store.frames.push { enclosing := some frame })
        t.unit ({ area := .block body } :: layers) store.frames.size := by
  obtain ⟨hg, hst⟩ := h.pushFrame (t.openBlock store.frames.size body) _
    { enclosing := some frame } rfl rfl (by simp)
  exact ⟨hg, hst, hh.push hg h.size (by simp [Trail.openBlock]) (by simp)⟩

end Declarations

theorem Trail.enter_eq {f : Closure} {u : SourceUnit} (h : t.declarer? f.id = some u)
    (frame : FrameId) :
    t.enter frame f = { t with
      unit := u
      callers := t.unit :: t.callers
      origin? := Function.update t.origin? frame (some ⟨u, .call f.decl⟩) } := by
  simp [Trail.enter, h]

/-- A call of a known function with known arguments makes a frame at the place of its body. -/
theorem StoreOk.enter (h : StoreOk t store) {f : Closure} (hf : t.Knows store.frames f)
    {args : List Value} (ha : ∀ v ∈ args, t.KnowsValue store.frames v)
    (hl : args.length = f.arity) :
    let made : Frame Value := ⟨some f.frame, State.bindParams f.decl.params args⟩
    let t' := t.enter store.frames.size f
    t.Grows store.frames t' (store.frames.push made) ∧ StoreOk t' (store.pushFrame made) ∧
      t'.callers = t.unit :: t.callers ∧ f.locals = t'.unit.locals ∧
      ∃ layers, t'.Holds (store.frames.push made) t'.unit layers store.frames.size ∧
        t'.unit.HasStmts layers f.decl.body := by
  obtain ⟨u, layers, hd, hloc, hh, hfun⟩ := hf
  intro made t'
  have ht : t' = _ := Trail.enter_eq hd store.frames.size
  have hbound := isSome_bindParams f.decl.params hl
  obtain ⟨hg, hst⟩ := h.pushFrame t' ⟨u, .call f.decl⟩ made (by rw [ht]) (by rw [ht]) <| by
    intro x v hx
    have hp := (hbound x).1 (Option.isSome_iff_exists.2 ⟨v, hx⟩)
    exact ⟨ha v (mem_of_bindParams hx), List.mem_append_left _ hp⟩
  have hunit : t'.unit = u := by rw [ht]
  refine ⟨hg, hst, by rw [ht], by rw [hunit, hloc], _, ?_, hunit.symm ▸ hfun.body⟩
  rw [hunit]
  exact hh.push hg h.size (by rw [ht]; simp) fun x hx => (hbound x).2 hx

end Changes

end Wandika
