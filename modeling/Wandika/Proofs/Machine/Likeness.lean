import Mathlib.Tactic
import Wandika.Machine

/-!
# Stores that differ in the code of functions

Two runs of the same program text that was put together differently make the same values, except
that a function may have other tokens, node numbers and tables in one run than in the other. No
operation on values looks at these.

* `Closure.Alike`: two functions that operations on values cannot tell apart;
* `Likeness`: a relation between such functions, `Value.Like`, `Bindings.Like`, `Frames.Like` and
  `Store.Like` what it makes of values and of what holds them;
* `Value.Like.render_eq` and so on: values that are alike behave alike;
* `Store.Like.define` and so on: stores that are alike stay so.
-/

namespace Wandika

/-- Two functions that operations on values cannot tell apart. -/
structure Closure.Alike (f g : Closure) : Prop where
  id : g.id = f.id
  frame : g.frame = f.frame
  name : g.decl.name.lexeme = f.decl.name.lexeme
  params : g.decl.params.map (·.lexeme) = f.decl.params.map (·.lexeme)

theorem Closure.Alike.arity_eq {f g : Closure} (h : f.Alike g) : g.arity = f.arity := by
  simpa [Closure.arity, FunDecl.arity] using congrArg List.length h.params

/-- A relation between functions that operations on values cannot tell apart. -/
structure Likeness where
  rel : Closure → Closure → Prop
  alike : ∀ {f g}, rel f g → f.Alike g

variable (L : Likeness)

/-- Values that differ in their functions at most. -/
inductive Value.Like : Value → Value → Prop
  | datum (d : Datum) : Like (.datum d) (.datum d)
  | function {f g : Closure} (h : L.rel f g) : Like (.function f) (.function g)
  | overloads (id : Nat) (name : String) {fs gs : List Closure} (h : List.Forall₂ L.rel fs gs) :
      Like (.overloads ⟨id, name, fs⟩) (.overloads ⟨id, name, gs⟩)

/-- The same names, bound to like values. -/
def Bindings.Like : Bindings Value → Bindings Value → Prop :=
  List.Forall₂ fun x y => y.1 = x.1 ∧ x.2.Like L y.2

/-- Frames at the same place with like bindings. -/
structure Frame.Like (f g : Frame Value) : Prop where
  enclosing : g.enclosing = f.enclosing
  bindings : Bindings.Like L f.bindings g.bindings

/-- As many frames, each like the other of its number. -/
structure Frames.Like (fs gs : Frames Value) : Prop where
  size : gs.size = fs.size
  frame? : ∀ id, Option.Rel (Frame.Like L) (fs.frame? id) (gs.frame? id)

/-- Stores that differ in their functions at most. -/
structure Store.Like (s t : Store) : Prop where
  frames : s.frames.Like L t.frames
  size : t.objects.size = s.objects.size
  objects : ∀ id : Nat, Option.Rel (Bindings.Like L) s.objects[id]? t.objects[id]?
  nextId : t.nextId = s.nextId

variable {L}

/-! ### Values -/

namespace Value.Like

variable {v w v' w' : Value}

theorem arities_eq {fs gs : List Closure} (h : List.Forall₂ L.rel fs gs) :
    gs.map Closure.arity = fs.map Closure.arity := by
  induction h with
  | nil => rfl
  | cons h _ ih => rw [List.map_cons, List.map_cons, (L.alike h).arity_eq, ih]

theorem render_eq (h : v.Like L w) : w.render = v.render := by
  cases h with
  | datum d => rfl
  | function h => simp only [Value.render, (L.alike h).name, (L.alike h).arity_eq]
  | overloads id name h => simp only [Value.render, Overloads.arities, arities_eq h]

theorem isTruthy_eq (h : v.Like L w) : w.isTruthy = v.isTruthy := by
  cases h <;> rfl

theorem measure?_eq (h : v.Like L w) : w.measure? = v.measure? := by
  cases h <;> rfl

theorem isEqual_eq (h : v.Like L w) (h' : v'.Like L w') : w.isEqual w' = v.isEqual v' := by
  cases h with
  | datum d => cases h' <;> cases d <;> rfl
  | function h =>
    cases h' with
    | datum d => cases d <;> rfl
    | function h' =>
      simp only [Value.isEqual, Value.isNil, (L.alike h).id, (L.alike h').id]
      rfl
    | overloads => rfl
  | overloads id name h =>
    cases h' with
    | datum d => cases d <;> rfl
    | function | overloads => rfl

theorem compare_eq (op : Kind) (h : v.Like L w) (h' : v'.Like L w') :
    Value.compare op w w' = Value.compare op v v' := by
  simp only [Value.compare, h.measure?_eq, h'.measure?_eq]

theorem add_eq (h : v.Like L w) (h' : v'.Like L w') : add w w' = add v v' := by
  have hr := h.render_eq
  have hr' := h'.render_eq
  cases h with
  | datum d =>
    cases h' with
    | datum d' => rfl
    | function | overloads => simp only [add, hr']
  | function | overloads => simp only [add, hr, hr']

end Value.Like

/-- A sum is a number or a text. -/
theorem Value.like_add (v v' : Value) : (add v v').Like L (add v v') := by
  unfold add
  split <;> exact .datum _

/-! ### Operators -/

/-- Two operators answer alike, or raise the same error, each at its own token. -/
inductive Answers {α : Type} (op op' : Token) (rel : α → α → Prop) :
    Except RuntimeError α → Except RuntimeError α → Prop
  | ok {x y : α} (h : rel x y) : Answers op op' rel (.ok x) (.ok y)
  | error (cause : RuntimeCause) : Answers op op' rel (.error ⟨op, cause⟩) (.error ⟨op', cause⟩)

section Operators

variable {op op' : Token} {v w v' w' : Value}

/-- Numbers are told apart from anything else, and the others are told by what is written for
them. -/
theorem answers_numbers (hl : op'.lexeme = op.lexeme) (h : v.Like L w) (h' : v'.Like L w') :
    Answers op op' Eq (numbers op v v') (numbers op' w w') := by
  have hr := h.render_eq
  have hr' := h'.render_eq
  cases h with
  | datum d =>
    cases h' with
    | datum d' =>
      cases d <;> cases d' <;> simp only [numbers, hl] <;> first | exact .ok rfl | exact .error _
    | function | overloads => cases d <;> simp only [numbers, hl, hr'] <;> exact .error _
  | function | overloads => simp only [numbers, hl, hr]; exact .error _

theorem answers_arithmetic (hk : op'.kind = op.kind) (hl : op'.lexeme = op.lexeme) (x y : Float) :
    Answers op op' (Value.Like L) (arithmetic op x y) (arithmetic op' x y) := by
  unfold arithmetic
  rw [hk, hl]
  split
  · exact .ok (.datum _)
  · exact .ok (.datum _)
  · split_ifs
    · exact .error _
    · exact .ok (.datum _)
  · split_ifs
    · exact .error _
    · exact .ok (.datum _)
  · exact .ok (.datum _)
  · exact .error _

theorem answers_binary (hk : op'.kind = op.kind) (hl : op'.lexeme = op.lexeme) (h : v.Like L w)
    (h' : v'.Like L w') :
    Answers op op' (Value.Like L) (applyBinary op v v') (applyBinary op' w w') := by
  unfold applyBinary
  rw [hk, h.isEqual_eq h', h.compare_eq _ h', h.add_eq h']
  split
  · exact .ok (.datum _)
  · exact .ok (.datum _)
  · exact .ok (.datum _)
  · exact .ok (.datum _)
  · exact .ok (.datum _)
  · exact .ok (.datum _)
  · exact .ok (Value.like_add v v')
  · generalize hx : numbers op v v' = x, hy : numbers op' w w' = y
    have hxy := answers_numbers hl h h'
    rw [hx, hy] at hxy
    cases hxy with
    | ok e =>
      subst e
      exact answers_arithmetic hk hl _ _
    | error cause => exact .error cause

theorem answers_unary (hk : op'.kind = op.kind) (hl : op'.lexeme = op.lexeme) (h : v.Like L w) :
    Answers op op' (Value.Like L) (applyUnary op v) (applyUnary op' w) := by
  unfold applyUnary
  rw [hk, hl, h.isTruthy_eq]
  split
  · exact .ok (.datum _)
  · cases h with
    | datum d => cases d <;> first | exact .ok (.datum _) | exact .error _
    | function | overloads => exact .error _
  · exact .error _

theorem answers_decides (hk : op'.kind = op.kind) (hl : op'.lexeme = op.lexeme) (h : v.Like L w) :
    Answers op op' Eq (decides op v) (decides op' w) := by
  unfold decides
  rw [hk, hl, h.isTruthy_eq]
  split
  · exact .ok rfl
  · exact .ok rfl
  · exact .error _

end Operators

/-! ### Bindings -/

namespace Bindings.Like

variable {bs cs : Bindings Value}

theorem put (h : Bindings.Like L bs cs) (name : String) {v w : Value} (hv : v.Like L w) :
    Bindings.Like L (bs.put name v) (cs.put name w) := by
  induction h with
  | nil => exact .cons ⟨rfl, hv⟩ .nil
  | @cons x y bs cs hxy hrest ih =>
    obtain ⟨n, u⟩ := x
    obtain ⟨n', u'⟩ := y
    obtain ⟨rfl, hu⟩ : n' = n ∧ u.Like L u' := hxy
    simp only [Bindings.put]
    split_ifs
    · exact .cons ⟨rfl, hv⟩ hrest
    · exact .cons ⟨rfl, hu⟩ ih

theorem get? (h : Bindings.Like L bs cs) (name : String) :
    Option.Rel (Value.Like L) (bs.get? name) (cs.get? name) := by
  induction h with
  | nil => exact .none
  | @cons x y bs cs hxy hrest ih =>
    obtain ⟨n, u⟩ := x
    obtain ⟨n', u'⟩ := y
    obtain ⟨rfl, hu⟩ : n' = n ∧ u.Like L u' := hxy
    rw [get?_cons, get?_cons]
    split_ifs
    · exact .some hu
    · exact ih

end Bindings.Like

/-- Parameters that are written alike are bound alike. -/
theorem like_bindParams {params params' : List Token} {args args' : List Value}
    (hp : params'.map (·.lexeme) = params.map (·.lexeme))
    (ha : List.Forall₂ (Value.Like L) args args') :
    Bindings.Like L (State.bindParams params args) (State.bindParams params' args') := by
  have hfold : ∀ {bs cs : Bindings Value}, Bindings.Like L bs cs →
      Bindings.Like L ((params.zip args).foldl (fun bs x => bs.put x.1.lexeme x.2) bs)
        ((params'.zip args').foldl (fun bs x => bs.put x.1.lexeme x.2) cs) := by
    induction ha generalizing params params' with
    | nil => simp
    | cons hv _ ih =>
      cases params with
      | nil =>
        obtain rfl : params' = [] := by simpa using hp
        exact id
      | cons p params =>
        obtain ⟨p', params', rfl, hlexeme, hp⟩ : ∃ q qs, params' = q :: qs ∧
            q.lexeme = p.lexeme ∧ qs.map (·.lexeme) = params.map (·.lexeme) := by
          simpa [List.map_eq_cons_iff] using hp
        intro bs cs h
        simp only [List.zip_cons_cons, List.foldl_cons, hlexeme]
        exact ih hp (h.put _ hv)
  exact hfold .nil

/-! ### Frames -/

section Options

variable {α β γ δ : Type} {r : α → β → Prop} {r' : γ → δ → Prop} {x : Option α} {y : Option β}

theorem rel_mono {q : α → β → Prop} (h : Option.Rel r x y) (hq : ∀ {a b}, r a b → q a b) :
    Option.Rel q x y := by
  cases h with
  | none => exact .none
  | some h => exact .some (hq h)

theorem rel_map {f : α → γ} {g : β → δ} (h : Option.Rel r x y)
    (hfg : ∀ {a b}, r a b → r' (f a) (g b)) : Option.Rel r' (x.map f) (y.map g) := by
  cases h with
  | none => exact .none
  | some h => exact .some (hfg h)

theorem rel_bind {f : α → Option γ} {g : β → Option δ} (h : Option.Rel r x y)
    (hfg : ∀ {a b}, r a b → Option.Rel r' (f a) (g b)) : Option.Rel r' (x.bind f) (y.bind g) := by
  cases h with
  | none => exact .none
  | some h => exact hfg h

theorem isSome_eq (h : Option.Rel r x y) : y.isSome = x.isSome := by
  cases h <;> rfl

end Options

namespace Frames.Like

variable {fs gs : Frames Value}

theorem push (h : fs.Like L gs) {f g : Frame Value} (hf : f.Like L g) :
    (fs.push f).Like L (gs.push g) := by
  refine ⟨by rw [size_push, size_push, h.size], fun id => ?_⟩
  have hsize : gs.frames.size = fs.frames.size := h.size
  simp only [Frames.frame?, Frames.push, Array.getElem?_push, hsize]
  split_ifs
  · exact .some hf
  · exact h.frame? id

theorem define (h : fs.Like L gs) (id : FrameId) (name : String) {v w : Value}
    (hv : v.Like L w) : (fs.define id name v).Like L (gs.define id name w) := by
  refine ⟨by rw [size_define, size_define, h.size], fun other => ?_⟩
  rw [frame?_define, frame?_define]
  refine rel_map (h.frame? other) fun hframe => ?_
  split_ifs
  · exact ⟨hframe.enclosing, hframe.bindings.put name hv⟩
  · exact hframe

theorem lookup (h : fs.Like L gs) (id : FrameId) (name : String) :
    Option.Rel (Value.Like L) (fs.lookup id name) (gs.lookup id name) :=
  rel_bind (h.frame? id) fun hframe => hframe.bindings.get? name

theorem enclosing?_eq (h : fs.Like L gs) (id : FrameId) : gs.enclosing? id = fs.enclosing? id := by
  unfold enclosing?
  generalize hx : fs.frame? id = x, hy : gs.frame? id = y
  have hxy := h.frame? id
  rw [hx, hy] at hxy
  cases hxy with
  | none => rfl
  | some hframe => exact hframe.enclosing

theorem ancestor?_eq (h : fs.Like L gs) (id : FrameId) (distance : Nat) :
    gs.ancestor? id distance = fs.ancestor? id distance := by
  induction distance generalizing id with
  | zero => rfl
  | succ distance ih => simp only [ancestor?, h.enclosing?_eq, ih]

theorem holderAt?_eq (h : fs.Like L gs) (id : FrameId) (distance : Nat) (name : String) :
    gs.holderAt? id distance name = fs.holderAt? id distance name := by
  simp only [holderAt?, h.ancestor?_eq, isSome_eq (h.lookup _ name)]

theorem holderWithin_eq (h : fs.Like L gs) (name : String) (steps : Nat) (id : FrameId) :
    gs.holderWithin name steps id = fs.holderWithin name steps id := by
  induction steps generalizing id with
  | zero => rfl
  | succ steps ih =>
    have hnext : gs.holderWithin name steps = fs.holderWithin name steps := funext ih
    simp only [holderWithin, isSome_eq (h.lookup id name), h.enclosing?_eq, hnext]

theorem holder?_eq (h : fs.Like L gs) (id : FrameId) (name : String) :
    gs.holder? id name = fs.holder? id name := by
  rw [Frames.holder?, Frames.holder?, h.size, h.holderWithin_eq]

end Frames.Like

/-! ### Overloads -/

section Overloads

variable {fs gs : List Closure} {f g : Closure}

theorem like_insert (hf : L.rel f g) (h : List.Forall₂ L.rel fs gs) :
    List.Forall₂ L.rel (Overloads.insert f fs) (Overloads.insert g gs) := by
  induction h with
  | nil => exact .cons hf .nil
  | @cons f₁ g₁ fs gs h₁ hrest ih =>
    simp only [Overloads.insert, (L.alike hf).arity_eq, (L.alike h₁).arity_eq]
    split_ifs
    · exact .cons hf (.cons h₁ hrest)
    · exact .cons hf hrest
    · exact .cons h₁ ih

theorem like_find? (h : List.Forall₂ L.rel fs gs) (count : Nat) :
    Option.Rel L.rel (fs.find? (·.arity = count)) (gs.find? (·.arity = count)) := by
  induction h with
  | nil => exact .none
  | @cons f₁ g₁ fs gs h₁ hrest ih =>
    simp only [List.find?_cons, (L.alike h₁).arity_eq]
    split
    · exact .some h₁
    · exact ih

theorem like_joined {bound bound' : Option Value} (hb : Option.Rel (Value.Like L) bound bound')
    (hf : L.rel f g) (setId : Nat) :
    (Store.joined bound f setId).Like L (Store.joined bound' g setId) := by
  have hfg := L.alike hf
  unfold Store.joined
  cases hb with
  | none => exact .function hf
  | some hv =>
    cases hv with
    | datum d => exact .function hf
    | function h₁ =>
      simp only [hfg.name, hfg.arity_eq, (L.alike h₁).arity_eq]
      split_ifs
      · exact .function hf
      · exact .overloads _ _ (like_insert hf (.cons h₁ .nil))
    | overloads id name h =>
      simp only [hfg.name]
      exact .overloads _ _ (like_insert hf h)

end Overloads

/-! ### Stores -/

namespace Store.Like

variable {s t : Store}

theorem define (h : s.Like L t) (frame : FrameId) (name : String) {v w : Value}
    (hv : v.Like L w) : (s.define frame name v).Like L (t.define frame name w) :=
  ⟨h.frames.define frame name hv, h.size, h.objects, h.nextId⟩

theorem pushFrame (h : s.Like L t) {f g : Frame Value} (hf : f.Like L g) :
    (s.pushFrame f).Like L (t.pushFrame g) :=
  ⟨h.frames.push hf, h.size, h.objects, h.nextId⟩

theorem newObject (h : s.Like L t) (c : Class) :
    (t.newObject c).1 = (s.newObject c).1 ∧ (s.newObject c).2.Like L (t.newObject c).2 := by
  refine ⟨by simp only [Store.newObject, h.size], h.frames, ?_, fun id => ?_, h.nextId⟩
  · simp [Store.newObject, h.size]
  · simp only [Store.newObject, Array.getElem?_push, h.size]
    split_ifs
    · exact .some .nil
    · exact h.objects id

theorem field? (h : s.Like L t) (o : Object) (name : String) :
    Option.Rel (Value.Like L) (s.field? o name) (t.field? o name) :=
  rel_bind (h.objects o.id) fun hfields => hfields.get? name

theorem setField (h : s.Like L t) (o : Object) (name : String) {v w : Value}
    (hv : v.Like L w) : (s.setField o name v).Like L (t.setField o name w) := by
  refine ⟨h.frames, by simp [Store.setField, h.size], fun id => ?_, h.nextId⟩
  simp only [Store.setField, Array.getElem?_modify]
  split_ifs
  · exact rel_map (h.objects id) fun hfields => hfields.put name hv
  · exact h.objects id

theorem declareClass (h : s.Like L t) (frame : FrameId) (name : String) :
    (s.declareClass frame name).Like L (t.declareClass frame name) := by
  have hnext : Store.Like L { s with nextId := s.nextId + 1 }
      { t with nextId := t.nextId + 1 } :=
    ⟨h.frames, h.size, h.objects, by simp [h.nextId]⟩
  have hdefine := hnext.define frame name (Value.Like.datum (.cls ⟨s.nextId, name⟩))
  simpa only [Store.declareClass, Store.newClass, h.nextId] using hdefine

/-- Functions that are alike stay so when they are declared. -/
theorem declareFunction (h : s.Like L t) {frame : FrameId} {decl decl' : FunDecl}
    {locals locals' : Locals}
    (hf : L.rel ⟨s.nextId, decl, frame, locals⟩ ⟨s.nextId, decl', frame, locals'⟩) :
    (s.declareFunction frame decl locals).Like L (t.declareFunction frame decl' locals') := by
  have hnext : Store.Like L { s with nextId := s.nextId + 2 }
      { t with nextId := t.nextId + 2 } :=
    ⟨h.frames, h.size, h.objects, by simp [h.nextId]⟩
  have hname : decl'.name.lexeme = decl.name.lexeme := (L.alike hf).name
  have hbound := h.frames.lookup frame decl.name.lexeme
  have hdefine := hnext.define frame decl.name.lexeme (like_joined hbound hf (s.nextId + 1))
  simpa only [Store.declareFunction, h.nextId, hname] using hdefine

end Store.Like

/-! ### Stores are like themselves -/

section Refl

variable (hL : ∀ f, L.rel f f)

include hL

theorem Value.Like.refl (v : Value) : v.Like L v := by
  cases v with
  | datum d => exact .datum d
  | function f => exact .function (hL f)
  | overloads o => exact .overloads o.id o.name (List.forall₂_same.2 fun f _ => hL f)

theorem Bindings.Like.refl (bs : Bindings Value) : Bindings.Like L bs bs :=
  List.forall₂_same.2 fun _ _ => ⟨rfl, .refl hL _⟩

/-- If functions are like themselves, so are stores. -/
theorem Store.Like.refl (s : Store) : s.Like L s := by
  refine ⟨⟨rfl, fun id => ?_⟩, rfl, fun id => ?_, rfl⟩
  · cases s.frames.frame? id with
    | none => exact .none
    | some f => exact .some ⟨rfl, .refl hL _⟩
  · cases s.objects[id]? with
    | none => exact .none
    | some bs => exact .some (.refl hL bs)

end Refl

end Wandika
