import Wandika.Proofs.Machine.Soundness

/-!
# What a write changes

Names are bound by declarations and parameters only, and are never unbound. An assignment changes
one name of one frame, and setting a field changes one field of one object.

* `Store.KeptIn`: the names and fields of a store are there in a later one;
* `Declaring`: a declaration is about to bind its name in the frame it is run in;
* `Store.Rebinds`, `Store.Refields`: exactly one name of one frame, or one field of one object, is
  given a value;
* `State.Finishes.assignment`, `State.Finishes.fieldSetting`: what these expressions do besides
  their subexpressions;
* `writes_local`: so it is throughout a session.
-/

namespace Wandika

/-! ### Fields of objects -/

section Fields

variable (store : Store)

theorem Store.field?_newObject_eq (c : Class) (o : Object) (name : String) :
    (store.newObject c).2.field? o name = store.field? o name := by
  simp only [Store.newObject, Store.field?, Array.getElem?_push]
  split_ifs with h
  · simp [h]
  · rfl

theorem Store.field?_setField_of_eq {owner o : Object} (hid : o.id = owner.id)
    (h : o.id < store.objects.size) (name : String) (v : Value) :
    (store.setField owner name v).field? o name = some v := by
  simp [Store.setField, Store.field?, Array.getElem?_modify, hid.symm, Array.getElem?_eq_getElem h]

theorem Store.field?_setField_of_ne {owner o : Object} {name x : String} (v : Value)
    (h : ¬ (o.id = owner.id ∧ x = name)) :
    (store.setField owner name v).field? o x = store.field? o x := by
  simp only [Store.setField, Store.field?, Array.getElem?_modify]
  split_ifs with hid
  · have hname : x ≠ name := fun e => h ⟨hid.symm, e⟩
    cases store.objects[o.id]? with
    | none => rfl
    | some bs => exact Bindings.get?_put_of_ne bs v hname
  · rfl

theorem Store.lt_of_field? {o : Object} {name : String} (h : (store.field? o name).isSome) :
    o.id < store.objects.size := by
  obtain ⟨v, hv⟩ := Option.isSome_iff_exists.1 h
  obtain ⟨bs, hbs, -⟩ := Option.bind_eq_some_iff.1 hv
  exact (Array.getElem?_eq_some_iff.1 hbs).1

end Fields

/-! ### What stays -/

/-- Every name that is bound in a frame, and every field of an object, is there in the other store
as well. -/
structure Store.KeptIn (before after : Store) : Prop where
  names : ∀ frame name, (before.frames.lookup frame name).isSome →
    (after.frames.lookup frame name).isSome
  fields : ∀ o name, (before.field? o name).isSome → (after.field? o name).isSome

namespace Store.KeptIn

variable {store before after : Store}

theorem refl (store : Store) : store.KeptIn store := ⟨fun _ _ h => h, fun _ _ h => h⟩

theorem trans {later : Store} (h : before.KeptIn after) (h' : after.KeptIn later) :
    before.KeptIn later :=
  ⟨fun frame name hn => h'.names frame name (h.names frame name hn),
    fun o name hn => h'.fields o name (h.fields o name hn)⟩

/-- A definition unbinds nothing. Identities may be handed out besides. -/
theorem define (store : Store) (frame : FrameId) (name : String) (v : Value) (next : Nat) :
    store.KeptIn ({ store with nextId := next }.define frame name v) := by
  refine ⟨fun other x h => ?_, fun o x h => h⟩
  show ((store.frames.define frame name v).lookup other x).isSome
  by_cases hplace : other = frame ∧ x = name
  · obtain ⟨rfl, rfl⟩ := hplace
    exact lookup_define_self (Frames.lt_of_lookup h) x v
  · rwa [Frames.lookup_define_of_ne hplace]

theorem pushFrame (store : Store) (frame : Frame Value) : store.KeptIn (store.pushFrame frame) := by
  refine ⟨fun other x h => ?_, fun o x h => h⟩
  show ((store.frames.push frame).lookup other x).isSome
  rwa [Frames.lookup_push_of_lt (Frames.lt_of_lookup h)]

theorem newObject (store : Store) (c : Class) : store.KeptIn (store.newObject c).2 :=
  ⟨fun _ _ h => h, fun o x h => by rwa [Store.field?_newObject_eq]⟩

theorem setField (store : Store) (owner : Object) (name : String) (v : Value) :
    store.KeptIn (store.setField owner name v) := by
  refine ⟨fun _ _ h => h, fun o x h => ?_⟩
  by_cases hplace : o.id = owner.id ∧ x = name
  · obtain ⟨hid, rfl⟩ := hplace
    rw [store.field?_setField_of_eq hid (store.lt_of_field? h)]
    rfl
  · rwa [store.field?_setField_of_ne v hplace]

end Store.KeptIn

theorem State.kept_step (mode : Mode) (s : State) : s.store.KeptIn (s.step mode).store := by
  have h := effect_step mode s
  generalize (s.step mode).store = store at h ⊢
  cases h with
  | keeps => exact .refl _
  | opens | enters => exact .pushFrame _ _
  | declaresClass | declaresFunction | bindsNil | binds | assigns => exact .define _ _ _ _ _
  | makes c => exact .newObject _ c
  | sets => exact .setField _ _ _ _

/-- What is bound in a frame or present in an object stays so for the rest of a session. -/
theorem Course.kept {mode : Mode} {past : List State} (h : Course mode past) :
    past.Pairwise fun later earlier => earlier.store.KeptIn later.store := by
  have extend : ∀ {s s' : State} {past : List State}, s.store.KeptIn s'.store →
      (s :: past).Pairwise (fun later earlier => earlier.store.KeptIn later.store) →
      (s' :: s :: past).Pairwise fun later earlier => earlier.store.KeptIn later.store := by
    intro s s' past hs hpast
    refine List.pairwise_cons.2 ⟨List.forall_mem_cons.2 ⟨hs, fun s₀ hs₀ => ?_⟩, hpast⟩
    exact ((List.pairwise_cons.1 hpast).1 s₀ hs₀).trans hs
  induction h with
  | first u => exact List.pairwise_singleton _ _
  | @step s past _ ih => exact extend (State.kept_step mode s) ih
  | next _ _ u ih => exact extend (.refl _) ih

/-! ### What is added -/

/-- The name that a class, function or variable declaration binds. -/
def Stmt.binder? : Stmt → Option Token
  | .classDecl name _ | .varDecl name _ => some name
  | .function decl => some decl.name
  | _ => none

/-- A declaration of the name, which is run in the frame, is at hand or has just evaluated the value
that it binds the name to. The earlier states are given as well. -/
def Declaring (mode : Mode) (s : State) (earlier : List State) (frame : FrameId) (name : String) :
    Prop :=
  ∃ s₀ ∈ s :: earlier, ∃ x token, s₀.control = .exec x ∧ x.binder? = some token ∧
    token.lexeme = name ∧ s₀.registers.frame = frame ∧
    (s₀ = s ∨ ∃ n, (s₀.step mode).Finishes mode n s)

/-- A call that runs a function with a parameter of the name is made next. -/
def Passing (mode : Mode) (s : State) (name : String) : Prop :=
  ∃ c f, s.ready? = some c ∧ s.target? mode c.callee c.args.length = some f ∧
    name ∈ f.decl.params.map Token.lexeme

section Additions

variable {mode : Mode} {s : State} {past : List State} {frame : FrameId} {name : String}
  {token : Token}

/-- A state of a session is reached from the beginning of a unit, by states of the session. -/
theorem Course.exists_iterate (h : Course mode past) : ∀ s rest, past = s :: rest →
    ∃ (u : SourceUnit) (store : Store) (n : Nat),
      (State.step mode)^[n] (State.start store u.program.stmts u.locals) = s ∧
      ∀ m < n, (State.step mode)^[m] (State.start store u.program.stmts u.locals) ∈ rest := by
  induction h with
  | first u =>
    rintro _ _ ⟨⟩
    exact ⟨u, Store.empty, 0, rfl, fun m hm => absurd hm (Nat.not_lt_zero m)⟩
  | @step s past _ ih =>
    rintro _ _ ⟨⟩
    obtain ⟨u, store, n, rfl, hpassed⟩ := ih s past rfl
    refine ⟨u, store, n + 1, Function.iterate_succ_apply' _ n _, fun m hm => ?_⟩
    rcases Nat.lt_succ_iff_lt_or_eq.1 hm with hm | rfl
    · exact List.mem_cons_of_mem _ (hpassed m hm)
    · exact List.mem_cons_self
  | @next s past _ _ u ih =>
    rintro _ _ ⟨⟩
    exact ⟨u, s.store, 0, rfl, fun m hm => absurd hm (Nat.not_lt_zero m)⟩

theorem Control.eq_of_awaits_varDecl {c : Control} {e : Expr}
    (h : c.awaits? = some (e, .varDecl token)) : c = .exec (.varDecl token (some e)) := by
  unfold Control.awaits? at h
  split at h <;> cases h
  rfl

/-- What a variable declaration waits for is its own initial value, and it waits in the frame in
which it was begun. -/
theorem Course.declaring_of_varDecl (h : Course mode (s :: past))
    (hcontrol : s.control.isOutcome = true) (hstack : s.stack.head? = some (.varDecl token)) :
    Declaring mode s past s.registers.frame token.lexeme := by
  obtain ⟨ks, hks⟩ := List.head?_eq_some_iff.1 hstack
  obtain ⟨u, store, n, rfl, hpassed⟩ := h.exists_iterate s past rfl
  obtain ⟨m, hm, e, j, hawaits, hfinishes⟩ :=
    State.exists_origin rfl rfl (State.not_suffix_start rfl store _ _) hks hcontrol
  refine ⟨_, List.mem_cons_of_mem _ (hpassed m hm), _, token,
    Control.eq_of_awaits_varDecl hawaits, rfl, rfl, ?_, Or.inr ⟨j, ?_⟩⟩
  · rw [hfinishes.registers_eq, Function.iterate_succ_apply', State.step_of_awaits? hawaits]
    rfl
  · rwa [Function.iterate_succ_apply'] at hfinishes

/-- A step adds a name to a frame by a declaration that is run in the frame, or to the new frame of
a call. -/
theorem Course.lookup_step_new (h : Course mode (s :: past))
    (hnone : s.store.frames.lookup frame name = none)
    (hsome : ((s.step mode).store.frames.lookup frame name).isSome) :
    (frame < s.store.frames.size ∧ s.registers.frame = frame ∧ Declaring mode s past frame name) ∨
      (frame = s.store.frames.size ∧ Passing mode s name) := by
  have hcurrent := (h.rooted s List.mem_cons_self).current
  -- a declaration at hand is run in the current frame
  have hdeclares : ∀ x token, s.control = .exec x → x.binder? = some token →
      token.lexeme = name → s.registers.frame = frame →
      frame < s.store.frames.size ∧ s.registers.frame = frame ∧
        Declaring mode s past frame name := by
    rintro x token hx hbinder hlexeme rfl
    exact ⟨hcurrent, rfl, s, List.mem_cons_self, x, token, hx, hbinder, hlexeme, rfl, Or.inl rfl⟩
  obtain ⟨v, hv⟩ := Option.isSome_iff_exists.1 hsome
  rcases State.lookup_step hv with hold | hputs | ⟨decl, ⟨hcontrol, hframe, hname⟩, -⟩
  · cases hnone.symm.trans hold
  · cases hputs with
    | cls token methods lexeme control frame_eq value =>
      exact Or.inl (hdeclares _ token control rfl lexeme frame_eq)
    | nil token lexeme control frame_eq value =>
      exact Or.inl (hdeclares _ token control rfl lexeme frame_eq)
    | var token lexeme control stack frame_eq =>
      subst lexeme frame_eq
      exact Or.inl ⟨hcurrent, rfl, h.declaring_of_varDecl (by rw [control]; rfl) stack⟩
    | assign id token lexeme control stack holder =>
      have hbound := isSome_of_holder? holder
      rw [lexeme, hnone] at hbound
      cases hbound
    | param c f ready target frame_eq bound =>
      refine Or.inr ⟨frame_eq.symm, c, f, ready, target, ?_⟩
      have harity : c.args.length = f.decl.params.length := (State.of_target? target).2.symm
      exact (isSome_bindParams f.decl.params harity name).1 (Option.isSome_iff_exists.2 ⟨v, bound⟩)
  · exact Or.inl (hdeclares _ decl.name hcontrol rfl hname hframe)

end Additions

/-! ### What is changed -/

/-- The second store is the first with another value of one name in one frame, which binds it
already. -/
structure Store.Rebinds (before after : Store) (frame : FrameId) (name : String) (v : Value) :
    Prop where
  bound : (before.frames.lookup frame name).isSome
  value : after.frames.lookup frame name = some v
  others : ∀ frame' name', ¬ (frame' = frame ∧ name' = name) →
    after.frames.lookup frame' name' = before.frames.lookup frame' name'
  enclosing : ∀ frame', after.frames.enclosing? frame' = before.frames.enclosing? frame'
  size : after.frames.size = before.frames.size
  objects : after.objects = before.objects
  nextId : after.nextId = before.nextId

/-- The second store is the first with another value of one field, which may be new, of one object
that is there. -/
structure Store.Refields (before after : Store) (o : Object) (name : String) (v : Value) :
    Prop where
  made : o.id < before.objects.size
  value : after.field? o name = some v
  others : ∀ o' name', ¬ (o'.id = o.id ∧ name' = name) →
    after.field? o' name' = before.field? o' name'
  count : after.objects.size = before.objects.size
  frames : after.frames = before.frames
  nextId : after.nextId = before.nextId

theorem Store.rebinds_define {store : Store} {frame : FrameId} {name : String}
    (h : (store.frames.lookup frame name).isSome) (v : Value) :
    store.Rebinds (store.define frame name v) frame name v where
  bound := h
  value := Frames.lookup_define_of_isSome (lookup_define_self (Frames.lt_of_lookup h) name v)
  others _ _ hplace := Frames.lookup_define_of_ne hplace
  enclosing _ := Frames.enclosing?_define _ _ _ _ _
  size := Frames.size_define _ _ _ _
  objects := rfl
  nextId := rfl

theorem Store.refields_setField {store : Store} {o : Object} (h : o.id < store.objects.size)
    (name : String) (v : Value) : store.Refields (store.setField o name v) o name v where
  made := h
  value := store.field?_setField_of_eq rfl h name v
  others _ _ hplace := store.field?_setField_of_ne v hplace
  count := by simp [Store.setField]
  frames := rfl
  nextId := rfl

namespace State

/-- The second state has an outcome above `ks`, and differs from the first neither in its registers
nor in what was written. -/
structure Concludes (ks : List Pending) (t u : State) : Prop where
  outcome : u.control.isOutcome = true
  stack : u.stack = ks
  registers : u.registers = t.registers
  output : u.output = t.output

/-- What an assignment to the name does from the end of its right-hand side to its own end: an error
is passed on, the value is given to a name that is bound, or the name is not bound and nothing
changes. -/
inductive Assigns (name : Token) (t u : State) : Prop
  | passes (e : RuntimeError) (raised : t.control = .raise e) (control : u.control = .raise e)
      (store : u.store = t.store)
  | rebinds (v : Value) (frame : FrameId) (value : t.control = .value v)
      (control : u.control = .value v) (store : t.store.Rebinds u.store frame name.lexeme v)
  | undefined (v : Value) (value : t.control = .value v)
      (control : u.control = .raise ⟨name, .undefinedVariable name.lexeme⟩)
      (store : u.store = t.store)

/-- What the setting of a field does from the end of the owner to its own end, if it does not go on
with the value: an error is passed on, or a value that is no object is refused, and nothing
changes. -/
inductive RefusesOwner (name : Token) (t u : State) : Prop
  | passes (e : RuntimeError) (raised : t.control = .raise e) (control : u.control = .raise e)
      (store : u.store = t.store)
  | refuses (v : Value) (value : t.control = .value v) (kind : ∀ o, v ≠ .object o)
      (control : u.control = .raise ⟨name, .noFields⟩) (store : u.store = t.store)

/-- What the setting of a field does from the end of the value to its own end: an error is passed
on, or the object is given the field. -/
inductive SetsField (name : Token) (o : Object) (t u : State) : Prop
  | passes (e : RuntimeError) (raised : t.control = .raise e) (control : u.control = .raise e)
      (store : u.store = t.store)
  | refields (v : Value) (value : t.control = .value v) (control : u.control = .value v)
      (store : t.store.Refields u.store o name.lexeme v)

section Extents

variable {mode : Mode} {s t u : State} {ks : List Pending} {name : Token} {n : Nat}

theorem assigns_step {id : Int} (hstack : t.stack = .assign id name :: ks)
    (hcontrol : (∃ v, t.control = .value v) ∨ ∃ e, t.control = .raise e) :
    Concludes ks t (t.step mode) ∧ Assigns name t (t.step mode) := by
  obtain ⟨control, stack, registers, store, output⟩ := t
  subst hstack
  rcases hcontrol with ⟨v, rfl⟩ | ⟨e, rfl⟩
  · cases hholder : holder? ⟨.value v, ks, registers, store, output⟩ id name with
    | some frame =>
      have hstep : step mode ⟨.value v, .assign id name :: ks, registers, store, output⟩ =
          ⟨.value v, ks, registers, store.define frame name.lexeme v, output⟩ := by
        simp only [step, valueStep, hholder]
      rw [hstep]
      exact ⟨⟨rfl, rfl, rfl, rfl⟩,
        .rebinds v frame rfl rfl (Store.rebinds_define (isSome_of_holder? hholder) v)⟩
    | none =>
      have hstep : step mode ⟨.value v, .assign id name :: ks, registers, store, output⟩ =
          ⟨.raise ⟨name, .undefinedVariable name.lexeme⟩, ks, registers, store, output⟩ := by
        simp only [step, valueStep, hholder, fail, goto]
      rw [hstep]
      exact ⟨⟨rfl, rfl, rfl, rfl⟩, .undefined v rfl rfl rfl⟩
  · exact ⟨⟨rfl, rfl, rfl, rfl⟩, .passes e rfl rfl rfl⟩

theorem setsField_step {o : Object} (hstack : t.stack = .fieldValue name o :: ks)
    (hcontrol : (∃ v, t.control = .value v) ∨ ∃ e, t.control = .raise e)
    (hmade : o.id < t.store.objects.size) :
    Concludes ks t (t.step mode) ∧ SetsField name o t (t.step mode) := by
  obtain ⟨control, stack, registers, store, output⟩ := t
  subst hstack
  rcases hcontrol with ⟨v, rfl⟩ | ⟨e, rfl⟩
  · exact ⟨⟨rfl, rfl, rfl, rfl⟩, .refields v rfl rfl (Store.refields_setField hmade _ v)⟩
  · exact ⟨⟨rfl, rfl, rfl, rfl⟩, .passes e rfl rfl rfl⟩

theorem owner_step {rhs : Expr} (hstack : t.stack = .fieldOwner name rhs :: ks)
    (hcontrol : (∃ v, t.control = .value v) ∨ ∃ e, t.control = .raise e) :
    (∃ o, t.control = .value (.object o) ∧
      t.step mode = push { t with stack := ks } (.eval rhs) (.fieldValue name o)) ∨
    (Concludes ks t (t.step mode) ∧ RefusesOwner name t (t.step mode)) := by
  obtain ⟨control, stack, registers, store, output⟩ := t
  subst hstack
  rcases hcontrol with ⟨v, rfl⟩ | ⟨e, rfl⟩
  · by_cases hobject : ∃ o, v = .object o
    · obtain ⟨o, rfl⟩ := hobject
      exact Or.inl ⟨o, rfl, rfl⟩
    · have hstep : step mode ⟨.value v, .fieldOwner name rhs :: ks, registers, store, output⟩ =
          ⟨.raise ⟨name, .noFields⟩, ks, registers, store, output⟩ := by
        simp only [step, valueStep]
        split
        · exact absurd ⟨_, rfl⟩ hobject
        · rfl
      rw [hstep]
      exact Or.inr ⟨⟨rfl, rfl, rfl, rfl⟩, .refuses v rfl (not_exists.1 hobject) rfl rfl⟩
  · exact Or.inr ⟨⟨rfl, rfl, rfl, rfl⟩, .passes e rfl rfl rfl⟩

/-- An expression that waits for a part of it is finished after the part is. -/
theorem Finishes.part {e : Expr} {k : Pending} (h : s.Finishes mode n u)
    (hawaits : s.control.awaits? = some (e, k)) :
    ∃ m t, (s.step mode).Finishes mode m t ∧ (step mode)^[m + 1] s = t ∧ m + 1 < n ∧
      t.stack = k :: s.stack ∧
      ((∃ v, t.control = .value v) ∨ ∃ error, t.control = .raise error) := by
  have hpush : s.step mode = s.push (.eval e) k := step_of_awaits? hawaits
  have hpos : 1 ≤ n := by
    rcases Nat.eq_zero_or_pos n with rfl | hpos
    · have houtcome := h.outcome
      rw [← h.reaches] at houtcome
      cases (Control.isOutcome_of_awaits? hawaits).symm.trans houtcome
    · exact hpos
  obtain ⟨m, t, hfinishes, hlt⟩ := h.inner (m := 1) hpos (by rw [Function.iterate_one, hpush]; rfl)
  rw [Function.iterate_one] at hfinishes
  refine ⟨m, t, hfinishes, ?_, by omega, ?_, hfinishes.of_eval (by rw [hpush]; rfl)⟩
  · rw [Function.iterate_succ_apply, hfinishes.reaches]
  · rw [hfinishes.stack, hpush]
    rfl

/-- An assignment has begun with its right-hand side, and ends with the step after it. -/
theorem Finishes.assignment {id : Int} {rhs : Expr} (h : s.Finishes mode n u)
    (hs : s.control = .eval (.assign id name rhs)) :
    s.step mode = s.push (.eval rhs) (.assign id name) ∧
      ∃ m t, (s.step mode).Finishes mode m t ∧ u = t.step mode ∧ Concludes s.stack t u ∧
        Assigns name t u := by
  have hawaits : s.control.awaits? = some (rhs, .assign id name) := by rw [hs]; rfl
  obtain ⟨m, t, hfinishes, hreaches, hlt, hstack, hcontrol⟩ := h.part hawaits
  obtain ⟨hconcludes, hassigns⟩ := assigns_step hstack hcontrol
  obtain rfl : u = t.step mode := h.eq_step hlt hreaches hconcludes.outcome hconcludes.stack
  exact ⟨step_of_awaits? hawaits, m, t, hfinishes, rfl, hconcludes, hassigns⟩

/-- The setting of a field has begun with its owner. It ends with the step after it, or goes on with
the value and ends with the step after that. -/
theorem Finishes.fieldSetting {object rhs : Expr} (h : s.Finishes mode n u)
    (hs : s.control = .eval (.set object name rhs))
    (hmade : ∀ j o, ((step mode)^[j] s).Stored (.object o) →
      o.id < ((step mode)^[j] s).store.objects.size) :
    s.step mode = s.push (.eval object) (.fieldOwner name rhs) ∧
      ∃ m t, (s.step mode).Finishes mode m t ∧
        ((u = t.step mode ∧ Concludes s.stack t u ∧ RefusesOwner name t u) ∨
          ∃ o m' t', t.control = .value (.object o) ∧
            t.step mode = push { t with stack := s.stack } (.eval rhs) (.fieldValue name o) ∧
            (t.step mode).Finishes mode m' t' ∧ u = t'.step mode ∧ Concludes s.stack t' u ∧
            SetsField name o t' u) := by
  have hawaits : s.control.awaits? = some (object, .fieldOwner name rhs) := by rw [hs]; rfl
  obtain ⟨m, t, hfinishes, hreaches, hlt, hstack, hcontrol⟩ := h.part hawaits
  refine ⟨step_of_awaits? hawaits, m, t, hfinishes, ?_⟩
  rcases owner_step hstack hcontrol with ⟨o, hobject, hstep⟩ | ⟨hconcludes, hrefuses⟩
  · right
    -- the value is evaluated while the owner waits on the stack
    have hreaches' : (step mode)^[m + 1 + 1] s = t.step mode := by
      rw [Function.iterate_succ_apply', hreaches]
    have hstack' : (t.step mode).stack = .fieldValue name o :: s.stack := by rw [hstep]; rfl
    obtain ⟨m', t', hfinishes', hlt'⟩ := h.inner (m := m + 1 + 1) hlt (by rw [hreaches', hstack'])
    rw [hreaches'] at hfinishes'
    have hreaches'' : (step mode)^[m' + (m + 1 + 1)] s = t' := by
      rw [Function.iterate_add_apply, hreaches', hfinishes'.reaches]
    have hwaits : t'.stack = .fieldValue name o :: s.stack := hfinishes'.stack.trans hstack'
    have hstored : t'.Stored (.object o) :=
      .stack (.fieldValue name o) (by simp [hwaits]) List.mem_cons_self
    have hsize := hmade (m' + (m + 1 + 1)) o
    rw [hreaches''] at hsize
    obtain ⟨hconcludes, hsets⟩ := setsField_step hwaits
      (hfinishes'.of_eval (by rw [hstep]; rfl)) (hsize hstored)
    obtain rfl : u = t'.step mode :=
      h.eq_step (by omega) hreaches'' hconcludes.outcome hconcludes.stack
    exact ⟨o, m', t', hobject, hstep, hfinishes', rfl, hconcludes, hsets⟩
  · left
    obtain rfl : u = t.step mode := h.eq_step hlt hreaches hconcludes.outcome hconcludes.stack
    exact ⟨rfl, hconcludes, hrefuses⟩

end Extents

/-! ### Objects -/

section Objects

variable {mode : Mode} {s : State}

/-- No object is ever given back. -/
theorem objects_step (mode : Mode) (s : State) :
    s.store.objects.size ≤ (s.step mode).store.objects.size := by
  have h := effect_step mode s
  generalize (s.step mode).store = store at h ⊢
  cases h with
  | makes c => simp [Store.newObject]
  | sets => simp [Store.setField]
  | _ => exact Nat.le_refl _

theorem declared_ne_datum (s : State) (decl : FunDecl) (d : Datum) :
    s.declared decl ≠ .datum d := by
  unfold declared Store.joined
  dsimp only
  split
  · split_ifs <;> simp
  · simp
  · simp

/-- An object that a step makes is there after the step. No literal of a text is an object. -/
theorem Makes.object_lt {known : Token → Prop} (hs : s.control.Sound known) {v : Value}
    (h : s.Makes mode v) {o : Object} (hv : v = .object o) :
    o.id < (s.step mode).store.objects.size := by
  cases h with
  | plain hplain =>
    cases hv
    cases hplain
  | literal control present =>
    cases hv
    rw [control] at hs
    cases hs
  | cls name => cases hv
  | object c store =>
    cases hv
    rw [store]
    simp [Store.newObject]
  | function control => exact absurd hv (declared_ne_datum s _ _)

end Objects

end State

/-- Every object that is kept anywhere is there. -/
theorem Course.object_lt {mode : Mode} {past : List State} (h : Course mode past) :
    ∀ s ∈ past, ∀ o, s.Stored (.object o) → o.id < s.store.objects.size := by
  induction h with
  | first u => exact List.forall_mem_singleton.2 fun o ho => absurd ho State.not_stored_first
  | @step s past hpast ih =>
    refine List.forall_mem_cons.2 ⟨fun o ho => ?_, ih⟩
    obtain ⟨us, t, hm⟩ := hpast.moment s List.mem_cons_self
    have hsound : s.Sound fun _ => True := hm.sound fun _ _ _ _ => trivial
    rcases State.stored_step_cases ho with hold | hmakes
    · exact (ih s List.mem_cons_self o hold).trans_le (State.objects_step mode s)
    · exact hmakes.object_lt hsound.control rfl
  | @next s past _ _ u ih =>
    refine List.forall_mem_cons.2 ⟨fun o ho => ?_, ih⟩
    exact ih s List.mem_cons_self o (State.stored_next ho)

/-- Of two states of a session that follow each other, the second is the next step of the first, or
begins a unit on the same store. -/
theorem Course.consecutive {mode : Mode} {past : List State} (h : Course mode past) :
    ∀ recent s' s earlier, past = recent ++ s' :: s :: earlier →
      Course mode (s :: earlier) ∧ (s' = s.step mode ∨ s'.store = s.store) := by
  induction h with
  | first u =>
    intro recent s' s earlier heq
    have hlength := congrArg List.length heq
    simp only [List.length_append, List.length_cons, List.length_nil] at hlength
    omega
  | @step s₁ past hpast ih =>
    intro recent s' s earlier heq
    cases recent with
    | nil =>
      cases heq
      exact ⟨hpast, Or.inl rfl⟩
    | cons r recent => exact ih recent s' s earlier (List.cons.inj heq).2
  | @next s₁ past hpast _ u ih =>
    intro recent s' s earlier heq
    cases recent with
    | nil =>
      cases heq
      exact ⟨hpast, Or.inr rfl⟩
    | cons r recent => exact ih recent s' s earlier (List.cons.inj heq).2

/-- Throughout a session, a name that is bound in a frame and a field of an object stay there. A
name is added to a frame that is there by a class, function or variable declaration, which is run
while the frame is the current one, and to a new frame as a parameter of a call. Besides what its
right-hand side does, an assignment changes the value of one name that is bound in one frame, or it
raises an error and changes nothing; besides what the owner and the value do, the setting of a field
changes one field of one object, or it raises an error and changes nothing. -/
theorem writes_local {mode : Mode} {past : List State} (h : Course mode past) :
    past.Pairwise (fun later earlier => earlier.store.KeptIn later.store) ∧
    (∀ recent s' s earlier, past = recent ++ s' :: s :: earlier →
      ∀ frame name, s.store.frames.lookup frame name = none →
        (s'.store.frames.lookup frame name).isSome →
        (frame < s.store.frames.size ∧ s.registers.frame = frame ∧
          Declaring mode s earlier frame name) ∨
        (frame = s.store.frames.size ∧ Passing mode s name)) ∧
    (∀ s ∈ past, ∀ id name rhs, s.control = .eval (.assign id name rhs) →
      ∀ n u, s.Finishes mode n u →
        s.step mode = s.push (.eval rhs) (.assign id name) ∧
        ∃ m t, (s.step mode).Finishes mode m t ∧ u = t.step mode ∧
          State.Concludes s.stack t u ∧ State.Assigns name t u) ∧
    ∀ s ∈ past, ∀ object name rhs, s.control = .eval (.set object name rhs) →
      ∀ n u, s.Finishes mode n u →
        s.step mode = s.push (.eval object) (.fieldOwner name rhs) ∧
        ∃ m t, (s.step mode).Finishes mode m t ∧
          ((u = t.step mode ∧ State.Concludes s.stack t u ∧ State.RefusesOwner name t u) ∨
            ∃ o m' t', t.control = .value (.object o) ∧
              t.step mode =
                State.push { t with stack := s.stack } (.eval rhs) (.fieldValue name o) ∧
              (t.step mode).Finishes mode m' t' ∧ u = t'.step mode ∧
              State.Concludes s.stack t' u ∧ State.SetsField name o t' u) := by
  refine ⟨h.kept, ?_, fun s _ id name rhs hs n u hu => hu.assignment hs, ?_⟩
  · intro recent s' s earlier heq frame name hnone hsome
    obtain ⟨hcourse, rfl | hstore⟩ := h.consecutive recent s' s earlier heq
    · exact hcourse.lookup_step_new hnone hsome
    · rw [hstore, hnone] at hsome
      cases hsome
  · intro s hs object name rhs hcontrol n u hu
    refine hu.fieldSetting hcontrol fun j o ho => ?_
    obtain ⟨us, t, hm⟩ := h.moment s hs
    obtain ⟨earlier, hcourse⟩ := hm.course
    obtain ⟨earlier', hlater⟩ := hcourse.iterate j
    exact hlater.object_lt _ List.mem_cons_self o ho

/-- A field of an object is set to the object itself. -/
theorem writes_local_field : ∃ (s t u : State) (past : List State) (o : Object) (v : Value),
    State.after? {} "class A \x7b\x7d var a = A(); a.x = a;".toList 10 = some s ∧
    Course {} (s :: past) ∧ s.Finishes {} 5 u ∧ u.control = .value v ∧
    t.store.Refields u.store o "x" v := by
  obtain ⟨s, u, object, name, rhs, v, hs, hcontrol, hname, hreaches, hvalue, hstack, hfirst⟩ :
      ∃ s u object name rhs v,
        State.after? {} "class A \x7b\x7d var a = A(); a.x = a;".toList 10 = some s ∧
        s.control = .eval (.set object name rhs) ∧ name.lexeme = "x" ∧
        (State.step {})^[5] s = u ∧ u.control = .value v ∧ u.stack = s.stack ∧
        ∀ m < 5, ((State.step {})^[m] s).control.isOutcome = true →
          ((State.step {})^[m] s).stack.length ≠ s.stack.length :=
    ⟨_, _, _, _, _, _, rfl, rfl, rfl, rfl, rfl, rfl, by decide +kernel⟩
  have hfinishes : s.Finishes {} 5 u :=
    ⟨hreaches, by rw [hvalue]; rfl, hstack,
      fun m hm houtcome hsame => hfirst m hm houtcome (congrArg List.length hsame)⟩
  obtain ⟨past, hpast⟩ := Course.of_after? hs
  obtain ⟨-, -, -, hsets⟩ := writes_local hpast
  obtain ⟨-, m, t, -, hend⟩ := hsets s List.mem_cons_self object name rhs hcontrol 5 u hfinishes
  rcases hend with ⟨-, -, hrefuses⟩ | ⟨o, m', t', -, -, -, -, -, hset⟩
  · cases hrefuses with
    | passes e raised control => cases hvalue.symm.trans control
    | refuses w value kind control => cases hvalue.symm.trans control
  · cases hset with
    | passes e raised control => cases hvalue.symm.trans control
    | refields w value control store =>
      cases hvalue.symm.trans control
      exact ⟨s, t', u, past, o, v, hs, hpast, hfinishes, hvalue, hname ▸ store⟩

end Wandika
