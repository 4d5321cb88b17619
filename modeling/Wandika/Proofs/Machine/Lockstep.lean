import Wandika.Proofs.Machine.Passage

/-!
# Two runs in step

* `State.Like.step`: states that are alike stay so with every step, until the first run has done its
  program and the second one goes on;
* `State.Like.run_first`: what the second run does while the first one does its program;
* `State.Like.run_eq`: if the second run does not go on, both halt after the same number of steps.
-/

namespace Wandika

variable {J : Comparison} {c : Setting} {s t : State} {mode : Mode}

/-! ### Going on -/

namespace Beside

theorem goto (h : Beside J c s t) {x y : Control} (hc : x.Like J.passages c y) :
    (s.goto x).Like J (t.goto y) :=
  .live c ⟨h.mem, h.here, h.there, h.waits, h.store, h.output⟩ hc

theorem push (h : Beside J c s t) {x y : Control} (hc : x.Like J.passages c y) {k k' : Pending}
    (hk : k.Like J.passages c k') : (s.push x k).Like J (t.push y k') :=
  .live c ⟨h.mem, h.here, h.there, .cons hk h.waits, h.store, h.output⟩ hc

theorem fail (h : Beside J c s t) (token : Option Token) (cause : RuntimeCause) :
    (s.fail token cause).Like J (t.fail (token.map c.passage.token) cause) :=
  h.goto (.raise ⟨c.passage, h.mem, rfl⟩)

theorem write (h : Beside J c s t) (o : Output) : Beside J c (s.write o) (t.write o) :=
  ⟨h.mem, h.here, h.there, h.waits, h.store, by simp [State.write, h.output]⟩

/-- What waits further down in the same setting. -/
theorem pop (h : Beside J c s t) {ks ks' : List Pending} (hs : Waits J c ks ks') :
    Beside J c { s with stack := ks } { t with stack := ks' } :=
  ⟨h.mem, h.here, h.there, hs, h.store, h.output⟩

/-- What waits further down in a setting that is restored. -/
theorem restore (h : Beside J c s t) {outer : Setting} {ks ks' : List Pending}
    (hs : Waits J outer ks ks') (hp : outer.passage ∈ J.passages) {x y : Control}
    (hc : x.Like J.passages outer y) :
    State.Like J { s with control := x, stack := ks, registers := outer.here }
      { t with control := y, stack := ks', registers := outer.there } :=
  .live outer ⟨hp, rfl, rfl, hs, h.store, h.output⟩ hc

/-- A block ends, and the frame around it is the current one again. -/
theorem leaveBlock (h : Beside J c s t) {outer : FrameId} {ks ks' : List Pending}
    (hs : Waits J { c with frame := outer } ks ks') {x y : Control}
    (hc : x.Like J.passages { c with frame := outer } y) :
    State.Like J
      { s with control := x, stack := ks, registers := { s.registers with frame := outer } }
      { t with control := y, stack := ks', registers := { t.registers with frame := outer } } := by
  rw [h.here, h.there]
  exact h.restore hs h.mem hc

/-- A change of the stores that keeps them alike. -/
theorem withStore (h : Beside J c s t) {S T : Store} (hs : S.Like (.through J.passages) T)
    {x y : Control} (hc : x.Like J.passages c y) :
    State.Like J { s with control := x, store := S } { t with control := y, store := T } :=
  .live c ⟨h.mem, h.here, h.there, h.waits, hs, h.output⟩ hc

theorem frame_eq (h : Beside J c s t) : s.registers.frame = c.frame ∧ t.registers.frame = c.frame :=
  ⟨by rw [h.here]; rfl, by rw [h.there]; rfl⟩

theorem define (h : Beside J c s t) (name : Token) {v w : Value}
    (hv : v.Like (.through J.passages) w) :
    Beside J c (s.define name v) (t.define (c.passage.token name) w) := by
  refine ⟨h.mem, h.here, h.there, h.waits, ?_, h.output⟩
  simp only [State.define, h.frame_eq.1, h.frame_eq.2, c.passage.plain name]
  exact h.store.define c.frame name.lexeme hv

theorem yield (h : Beside J c s t) (op : Token) {x y : Except RuntimeError Value}
    (hxy : Answers op (c.passage.token op) (Value.Like (.through J.passages)) x y) :
    (s.yield x).Like J (t.yield y) := by
  cases hxy with
  | ok hv => exact h.goto (.value hv)
  | error cause => exact h.goto (.raise ⟨c.passage, h.mem, rfl⟩)

/-! ### Variables -/

/-- A node finds the same frame in both runs. -/
theorem holder?_eq (h : Beside J c s t) {id : Int} (hid : c.passage.Covers [id]) (name : Token) :
    t.holder? (id + c.passage.offset) (c.passage.token name) = s.holder? id name := by
  have hd : t.registers.locals.distance? (id + c.passage.offset) =
      s.registers.locals.distance? id := by
    rw [h.here, h.there]
    exact hid id (List.mem_singleton_self id)
  have hf : t.registers.frame = s.registers.frame := h.frame_eq.2.trans h.frame_eq.1.symm
  unfold State.holder?
  rw [hd, hf, c.passage.plain name]
  cases s.registers.locals.distance? id with
  | some d => exact h.store.frames.holderAt?_eq _ d _
  | none => exact h.store.frames.holder?_eq _ _

theorem valueOf? (h : Beside J c s t) {id : Int} (hid : c.passage.Covers [id]) (name : Token) :
    Option.Rel (Value.Like (.through J.passages)) (s.valueOf? id name)
      (t.valueOf? (id + c.passage.offset) (c.passage.token name)) := by
  unfold State.valueOf?
  rw [h.holder?_eq hid, c.passage.plain name]
  cases s.holder? id name with
  | none => exact .none
  | some frame => exact h.store.frames.lookup frame name.lexeme

/-! ### Calls -/

theorem atLimit_eq (h : Beside J c s t) : t.atLimit mode = s.atLimit mode := by
  simp only [State.atLimit, h.here, h.there, Setting.here, Setting.there]

theorem enter (h : Beside J c s t) (paren : Option Token) {f g : Closure}
    (hf : (Likeness.through J.passages).rel f g) {args args' : List Value}
    (hargs : List.Forall₂ (Value.Like (.through J.passages)) args args') :
    (s.enter mode paren f args).Like J (t.enter mode (paren.map c.passage.token) g args') := by
  unfold State.enter
  rw [h.atLimit_eq]
  split_ifs
  · exact h.fail paren _
  obtain ⟨p, hp, htakes⟩ := hf
  have hparams := htakes.alike.params
  obtain ⟨hlocals, hcovers, rfl⟩ := htakes
  rw [FunDecl.ids_eq, Passage.covers_idsAll] at hcovers
  let callee : Setting := ⟨p, true, s.store.frames.size, s.registers.depth + 1⟩
  refine .live callee ⟨hp, ?_, ?_, ?_, ?_, h.output⟩ .next
  · simp [Setting.here, callee, hlocals]
  · simp [Setting.there, callee, h.store.frames.size, h.here, h.there, Setting.here]
  · show Waits J callee (.sequence f.decl.body :: .leaveCall s.registers :: s.stack)
      (.sequence (f.decl.relabel p.toRelabel).body :: .leaveCall t.registers :: t.stack)
    rw [FunDecl.body_relabel, h.here, h.there]
    exact .cons (.sequence fun x hx => ⟨hcovers x hx, fun _ => rfl⟩)
      (.leaveCall rfl h.mem h.waits)
  · exact h.store.pushFrame ⟨rfl, like_bindParams hparams hargs⟩

theorem construct (h : Beside J c s t) (paren : Option Token) (cls : Class) :
    (s.construct mode paren cls).Like J (t.construct mode (paren.map c.passage.token) cls) := by
  unfold State.construct
  rw [h.atLimit_eq]
  split_ifs
  · exact h.fail paren _
  · obtain ⟨ho, hstore⟩ := h.store.newObject cls
    have hvalue : Control.Like J.passages c (.value (.object (s.store.newObject cls).1))
        (.value (.object (t.store.newObject cls).1)) := by
      rw [ho]
      exact .value (.datum _)
    exact h.withStore hstore hvalue

theorem call (h : Beside J c s t) (paren : Option Token) {v w : Value}
    (hv : v.Like (.through J.passages) w) {args args' : List Value}
    (hargs : List.Forall₂ (Value.Like (.through J.passages)) args args') :
    (s.call mode paren v args).Like J (t.call mode (paren.map c.passage.token) w args') := by
  have hlength : args'.length = args.length := hargs.length_eq.symm
  cases hv with
  | datum d =>
    cases d with
    | cls cls =>
      simp only [State.call, hlength]
      split_ifs
      · exact h.construct paren cls
      · exact h.fail paren _
    | _ => exact h.fail paren _
  | @function f g hf =>
    have harity : g.arity = f.arity := (Likeness.alike _ hf).arity_eq
    simp only [State.call, hlength, harity]
    split_ifs
    · exact h.enter paren hf hargs
    · exact h.fail paren _
  | @overloads id name fs gs hfs =>
    have hselect := like_find? hfs args.length
    simp only [State.call, Overloads.select?, hlength]
    generalize fs.find? _ = x at hselect ⊢
    generalize gs.find? _ = y at hselect ⊢
    cases hselect with
    | none => exact h.fail paren _
    | some hf => exact h.enter paren hf hargs

/-! ### Expressions and statements -/

theorem evalStep (h : Beside J c s t) {e : Expr} (he : c.passage.Covers e.ids) :
    (s.evalStep e).Like J (t.evalStep (e.relabel c.passage.toRelabel)) := by
  cases e with
  | assign id name value =>
    rw [Expr.ids, Passage.covers_cons] at he
    exact h.push (.eval he.2) (.assign name he.1)
  | binary op lhs rhs =>
    rw [Expr.ids, Passage.covers_append] at he
    exact h.push (.eval he.1) (.rightOperand op he.2)
  | call callee paren args =>
    rw [Expr.ids, Passage.covers_append] at he
    exact h.push (.eval he.1) (.callee paren he.2)
  | get object name =>
    rw [Expr.ids] at he
    exact h.push (.eval he) (.property name)
  | group inner =>
    rw [Expr.ids] at he
    exact h.goto (.eval he)
  | literal value => cases value <;> exact h.goto (.value (.datum _))
  | logical op lhs rhs =>
    rw [Expr.ids, Passage.covers_append] at he
    exact h.push (.eval he.1) (.logical op he.2)
  | set object name value =>
    rw [Expr.ids, Passage.covers_append] at he
    exact h.push (.eval he.1) (.fieldOwner name he.2)
  | ternary cond question yes no =>
    cases no with
    | none =>
      rw [Expr.ids, Passage.covers_append] at he
      exact h.push (.eval he.1) (.choose he.2 (by simp))
    | some no =>
      rw [Expr.ids, Passage.covers_append, Passage.covers_append] at he
      exact h.push (.eval he.1) (.choose he.2.1 (by simpa using he.2.2))
  | unary op operand =>
    rw [Expr.ids] at he
    exact h.push (.eval he) (.unary op)
  | «variable» id name =>
    have hvalue := h.valueOf? he name
    simp only [State.evalStep, Expr.relabel, c.passage.plain name]
    generalize s.valueOf? id name = x at hvalue ⊢
    generalize t.valueOf? _ _ = y at hvalue ⊢
    cases hvalue with
    | none => exact h.fail (some name) _
    | some hv => exact h.goto (.value hv)

theorem isQuiet_relabel (ρ : Relabel) (e : Expr) :
    State.isQuiet (e.relabel ρ) = State.isQuiet e := by
  cases e with
  | ternary cond question yes no => cases no <;> rfl
  | _ => rfl

theorem execStep (h : Beside J c s t) {x : Stmt} (hx : c.Admits x) :
    (s.execStep x).Like J (t.execStep (x.relabel c.passage.toRelabel)) := by
  have hids := hx.covers
  cases x with
  | block body =>
    rw [Stmt.relabel, Stmt.relabelAll_eq]
    let inner : Setting := { c with frame := s.store.frames.size }
    have hbody : ∀ y ∈ body, inner.Admits y :=
      fun y hy => ⟨(hx.block y hy).covers, (hx.block y hy).returns⟩
    refine .live inner ⟨h.mem, ?_, ?_, ?_, ?_, h.output⟩ .next
    · simp [State.execStep, h.here, Setting.here, inner]
    · simp [State.execStep, h.there, Setting.there, inner, h.store.frames.size]
    · show Waits J inner (.sequence body :: .leaveBlock s.registers.frame :: s.stack)
        (.sequence (body.map (Stmt.relabel c.passage.toRelabel)) ::
          .leaveBlock t.registers.frame :: t.stack)
      rw [h.frame_eq.1, h.frame_eq.2]
      exact .cons (.sequence hbody) (.leaveBlock c.frame h.waits)
    · exact h.store.pushFrame ⟨by rw [h.frame_eq.1, h.frame_eq.2], .nil⟩
  | classDecl name methods =>
    refine h.withStore ?_ .next
    rw [h.frame_eq.1, h.frame_eq.2, c.passage.plain name]
    exact h.store.declareClass c.frame name.lexeme
  | expr value =>
    rw [Stmt.ids] at hids
    have hquiet := isQuiet_relabel c.passage.toRelabel value
    simp only [State.execStep, Stmt.relabel, hquiet]
    exact h.push (.eval hids) (.discard _)
  | function decl =>
    rw [Stmt.ids] at hids
    refine h.withStore ?_ .next
    rw [h.here, h.there]
    exact h.store.declareFunction ⟨c.passage, h.mem, rfl, hids, rfl⟩
  | branch cond yes no =>
    cases no with
    | none =>
      obtain ⟨hcond, hyes⟩ := hx.branch
      exact h.push (.eval hcond) (.branch hyes (by simp))
    | some no =>
      obtain ⟨hcond, hyes, hno⟩ := hx.branches
      exact h.push (.eval hcond) (.branch hyes (by simpa using hno))
  | print value =>
    rw [Stmt.ids] at hids
    exact h.push (.eval hids) .print
  | ret keyword value =>
    have hcall := hx.returns rfl
    cases value with
    | none => exact h.goto (.returned (.datum _) hcall)
    | some value =>
      rw [Stmt.ids] at hids
      exact h.push (.eval hids) (.ret hcall)
  | varDecl name init =>
    cases init with
    | none => exact (h.define name (.datum .nil)).goto .next
    | some init =>
      rw [Stmt.ids] at hids
      exact h.push (.eval hids) (.varDecl name)
  | loop cond body =>
    obtain ⟨hcond, hbody⟩ := hx.loop
    exact h.push (.eval hcond) (.loopCondition hcond hbody)

/-! ### Outcomes -/

theorem valueStep (h : Beside J c s t) {v w : Value} (hv : v.Like (.through J.passages) w)
    {k k' : Pending} (hk : k.Like J.passages c k') :
    (s.valueStep mode v k).Like J (t.valueStep mode w k') := by
  have htruthy := hv.isTruthy_eq
  have hrender := hv.render_eq
  cases hk with
  | @assign id name hid =>
    simp only [State.valueStep, h.holder?_eq hid name, c.passage.plain name]
    cases s.holder? id name with
    | some frame => exact h.withStore (h.store.define frame name.lexeme hv) (.value hv)
    | none => exact h.fail (some name) _
  | rightOperand op hrhs => exact h.push (.eval hrhs) (.binary op hv)
  | binary op hlhs =>
    exact h.yield op (answers_binary (c.passage.kind_token op) (c.passage.plain op) hlhs hv)
  | @callee paren args hargs =>
    cases args with
    | nil => exact h.call paren hv .nil
    | cons arg args =>
      rw [Expr.idsAll, Passage.covers_append] at hargs
      exact h.push (.eval hargs.1) (.argument paren hv .nil hargs.2)
  | @argument paren callee callee' before before' args hcallee hbefore hargs =>
    have hall := List.rel_append hbefore (.cons hv .nil)
    cases args with
    | nil => exact h.call paren hcallee hall
    | cons arg args =>
      rw [Expr.idsAll, Passage.covers_append] at hargs
      exact h.push (.eval hargs.1) (.argument paren hcallee hall hargs.2)
  | property name =>
    cases hv with
    | datum d =>
      cases d with
      | object o =>
        have hfield := h.store.field? o name.lexeme
        simp only [State.valueStep, c.passage.plain name]
        generalize s.store.field? o name.lexeme = x at hfield ⊢
        generalize t.store.field? o name.lexeme = y at hfield ⊢
        cases hfield with
        | none => exact h.fail (some name) _
        | some hx => exact h.goto (.value hx)
      | _ => exact h.fail (some name) _
    | function | overloads => exact h.fail (some name) _
  | logical op hrhs =>
    have hdecides := answers_decides (c.passage.kind_token op) (c.passage.plain op) hv
    simp only [State.valueStep]
    generalize decides op v = x at hdecides ⊢
    generalize decides (c.passage.token op) w = y at hdecides ⊢
    cases hdecides with
    | @ok b b' e =>
      subst e
      cases b with
      | true => exact h.goto (.value hv)
      | false => exact h.goto (.eval hrhs)
    | error cause => exact h.goto (.raise ⟨c.passage, h.mem, rfl⟩)
  | fieldOwner name hvalue =>
    cases hv with
    | datum d =>
      cases d with
      | object o => exact h.push (.eval hvalue) (.fieldValue name o)
      | _ => exact h.fail (some name) _
    | function | overloads => exact h.fail (some name) _
  | fieldValue name owner =>
    refine h.withStore ?_ (.value hv)
    rw [c.passage.plain name]
    exact h.store.setField owner name.lexeme hv
  | @choose yes no hyes hno =>
    simp only [State.valueStep, htruthy]
    split_ifs
    · exact h.goto (.eval hyes)
    · cases no with
      | none => exact h.goto (.value (.datum _))
      | some no => exact h.goto (.eval (hno no rfl))
  | unary op =>
    exact h.yield op (answers_unary (c.passage.kind_token op) (c.passage.plain op) hv)
  | discard quiet =>
    simp only [State.valueStep, hrender]
    split_ifs
    · exact (h.write _).goto .next
    · exact h.goto .next
  | @branch yes no hyes hno =>
    simp only [State.valueStep, htruthy]
    split_ifs
    · exact h.goto (.exec hyes)
    · cases no with
      | none => exact h.goto .next
      | some no => exact h.goto (.exec (hno no rfl))
  | print =>
    simp only [State.valueStep, hrender]
    exact (h.write _).goto .next
  | ret hcall => exact h.goto (.returned hv hcall)
  | varDecl name => exact (h.define name hv).goto .next
  | loopCondition hcond hbody =>
    simp only [State.valueStep, htruthy]
    split_ifs
    · exact h.push (.exec hbody) (.loopBody hcond hbody)
    · exact h.goto .next
  | loopBody hcond hbody => exact h.push (.value hv) (.loopBody hcond hbody)
  | sequence hrest => exact h.push (.value hv) (.sequence hrest)

theorem doneStep (h : Beside J c s t) {x y : Completion}
    (hxy : Control.Like J.passages c (.done x) (.done y)) {k k' : Pending}
    (hk : k.Like J.passages c k') : (s.doneStep x k).Like J (t.doneStep y k') := by
  have hback := h.push hxy hk
  cases hk with
  | loopBody hcond hbody =>
    cases hxy with
    | next => exact h.push (.eval hcond) (.loopCondition hcond hbody)
    | returned hv hcall => exact h.goto (.returned hv hcall)
  | @sequence rest hrest =>
    cases hxy with
    | next =>
      cases rest with
      | nil => exact h.goto .next
      | cons stmt rest =>
        rw [List.forall_mem_cons] at hrest
        exact h.push (.exec hrest.1) (.sequence hrest.2)
    | returned hv hcall =>
      cases rest with
      | nil | cons => exact h.goto (.returned hv hcall)
  | _ => exact hback

theorem raiseStep (h : Beside J c s t) {e e' : RuntimeError} (he : e.Like J.passages e')
    {k k' : Pending} (hk : k.Like J.passages c k') :
    (s.raiseStep e k).Like J (t.raiseStep e' k') := by
  cases hk <;> exact h.goto (.raise he)

end Beside

/-! ### Steps -/

/-- The beginning of a program in a run that has written something before. -/
def State.startAfter (output : List Output) (store : Store) (stmts : List Stmt)
    (locals : Locals) : State :=
  ⟨.done .next, [.sequence stmts], ⟨globalFrame, locals, 0⟩, store, output⟩

/-- The first run has done its program, and the second one is about to go on with the rest of its
own. -/
structure Handover (J : Comparison) (rest : List Stmt) (s t : State) : Prop where
  next : J.next = some rest
  control : s.control = .done .next
  stack : s.stack = [.sequence []]
  there : t = .startAfter t.output t.store rest J.top.there
  store : s.store.Like (.through J.passages) t.store
  output : t.output = s.output ++ J.written

theorem Ends.halted (h : Ends J s.control t.control) (hs : s.stack = []) (ht : t.stack = []) :
    s.halted = true ∧ t.halted = true := by
  unfold State.halted
  rw [hs, ht]
  generalize s.control = x at h ⊢
  generalize t.control = y at h ⊢
  cases h <;> exact ⟨rfl, rfl⟩

section Step

variable {ks ks' : List Pending} {registers registers' : Registers} {store store' : Store}
  {output output' : List Output}

theorem Beside.stepValue {v w : Value}
    (h : Beside J c ⟨.value v, ks, registers, store, output⟩
      ⟨.value w, ks', registers', store', output'⟩)
    (hv : v.Like (.through J.passages) w) :
    State.Like J (State.step mode ⟨.value v, ks, registers, store, output⟩)
      (State.step mode ⟨.value w, ks', registers', store', output'⟩) := by
  cases id h.waits with
  | last | leaveBlock | leaveCall => exact .live _ h (.value hv)
  | cons hk hs => exact (h.pop hs).valueStep hv hk

theorem Beside.stepReturned {v w : Value}
    (h : Beside J c ⟨.done (.returned v), ks, registers, store, output⟩
      ⟨.done (.returned w), ks', registers', store', output'⟩)
    (hv : v.Like (.through J.passages) w) (hcall : c.inCall = true) :
    State.Like J (State.step mode ⟨.done (.returned v), ks, registers, store, output⟩)
      (State.step mode ⟨.done (.returned w), ks', registers', store', output'⟩) := by
  cases id h.waits with
  | last => cases hcall
  | cons hk hs => exact (h.pop hs).doneStep (.returned hv hcall) hk
  | leaveBlock outer hs => exact h.leaveBlock hs (.returned hv hcall)
  | leaveCall _ hp hs => exact h.restore hs hp (.value hv)

theorem Beside.stepRaise {e e' : RuntimeError}
    (h : Beside J c ⟨.raise e, ks, registers, store, output⟩
      ⟨.raise e', ks', registers', store', output'⟩)
    (he : e.Like J.passages e') :
    State.Like J (State.step mode ⟨.raise e, ks, registers, store, output⟩)
      (State.step mode ⟨.raise e', ks', registers', store', output'⟩) := by
  cases id h.waits with
  | last => exact .ended rfl rfl (.raise he) h.store h.output
  | cons hk hs => exact (h.pop hs).raiseStep he hk
  | leaveBlock outer hs => exact h.leaveBlock hs (.raise he)
  | leaveCall _ hp hs => exact h.restore hs hp (.raise he)

theorem Beside.stepNext
    (h : Beside J c ⟨.done .next, ks, registers, store, output⟩
      ⟨.done .next, ks', registers', store', output'⟩) :
    State.Like J (State.step mode ⟨.done .next, ks, registers, store, output⟩)
        (State.step mode ⟨.done .next, ks', registers', store', output'⟩) ∨
      ∃ rest, Handover J rest ⟨.done .next, ks, registers, store, output⟩
        ⟨.done .next, ks', registers', store', output'⟩ := by
  cases id h.waits with
  | @last rest hrest =>
    cases rest with
    | cons stmt rest =>
      rw [List.forall_mem_cons] at hrest
      exact .inl (.live _ ⟨h.mem, h.here, h.there, .last hrest.2, h.store, h.output⟩
        (.exec hrest.1))
    | nil =>
      -- here the two runs part, unless the second has nothing more to do
      cases hnext : J.next with
      | none =>
        rw [Option.getD_none]
        exact .inl (.ended rfl rfl (.next hnext) h.store h.output)
      | some more =>
        obtain rfl : registers' = J.bottom.there := h.there
        exact .inr ⟨more, hnext, rfl, rfl, rfl, h.store, h.output⟩
  | cons hk hs => exact .inl ((h.pop hs).doneStep .next hk)
  | leaveBlock outer hs => exact .inl (h.leaveBlock hs .next)
  | leaveCall _ hp hs => exact .inl (h.restore hs hp (.value (.datum _)))

end Step

/-- One step keeps two states alike, unless the second run goes on after the end of the first. -/
theorem State.Like.step (h : s.Like J t) :
    (s.step mode).Like J (t.step mode) ∨ ∃ rest, Handover J rest s t := by
  cases h with
  | ended here there control store output =>
    obtain ⟨hs, ht⟩ := control.halted here there
    rw [State.step_of_halted hs, State.step_of_halted ht]
    exact .inl (.ended here there control store output)
  | live c beside control =>
    obtain ⟨x, ks, registers, store, output⟩ := s
    obtain ⟨y, ks', registers', store', output'⟩ := t
    dsimp only at control
    cases control with
    | eval he => exact .inl (beside.evalStep he)
    | exec hx => exact .inl (beside.execStep hx)
    | value hv => exact .inl (beside.stepValue hv)
    | next => exact beside.stepNext
    | returned hv hcall => exact .inl (beside.stepReturned hv hcall)
    | raise he => exact .inl (beside.stepRaise he)

/-! ### Runs -/

namespace State

theorem run_succ (mode : Mode) (fuel : Nat) (s : State) :
    run mode (fuel + 1) s = run mode fuel (s.step mode) := by
  by_cases hs : s.halted = true
  · rw [step_of_halted hs, run_of_halted hs, run_of_halted hs]
  · simp [run, hs]

theorem run_add (mode : Mode) (n fuel : Nat) (s : State) :
    run mode (n + fuel) s = run mode fuel ((step mode)^[n] s) := by
  induction n generalizing s with
  | zero => simp
  | succ n ih => rw [Nat.succ_add, run_succ, ih, Function.iterate_succ_apply]

theorem halted_eq_false {s : State} (h : s.stack ≠ []) : s.halted = false := by
  obtain ⟨x, ks, registers, store, output⟩ := s
  cases ks with
  | nil => exact absurd rfl h
  | cons k ks => cases x <;> rfl

end State

theorem Waits.ne_nil {ks ks' : List Pending} (h : Waits J c ks ks') : ks ≠ [] ∧ ks' ≠ [] := by
  cases h <;> exact ⟨List.cons_ne_nil _ _, List.cons_ne_nil _ _⟩

namespace State.Like

/-- If one of the states has halted, both have, and they end alike. -/
theorem ends (h : s.Like J t) (hs : s.halted = true ∨ t.halted = true) :
    (s.halted = true ∧ t.halted = true) ∧ Ends J s.control t.control ∧
      s.store.Like (.through J.passages) t.store ∧ t.output = s.output ++ J.written := by
  cases h with
  | ended here there control store output =>
    exact ⟨control.halted here there, control, store, output⟩
  | live c beside control =>
    obtain ⟨hne, hne'⟩ := beside.waits.ne_nil
    rw [halted_eq_false hne, halted_eq_false hne'] at hs
    simp at hs

theorem output_eq (h : s.Like J t) : t.output = s.output ++ J.written := by
  cases h with
  | ended _ _ _ _ output => exact output
  | live _ beside _ => exact beside.output

/-- While the first run does its program to the end, the second one comes to the rest of its own. -/
theorem run_first {rest : List Stmt} (hnext : J.next = some rest) {fuel : Nat} {final : State}
    (herr : final.error? = none) (h : s.Like J t) (hrun : run mode fuel s = some final) :
    ∃ n store, (State.step mode)^[n] t =
        .startAfter (final.output ++ J.written) store rest J.top.there ∧
      final.store.Like (.through J.passages) store := by
  -- a run cannot halt before: it would end with an error, or the second one would not go on
  have hgoes : ∀ {s t : State}, s.Like J t → s.error? = none → s.halted = false := by
    intro s t h herr
    by_contra hs
    obtain ⟨-, hends, -⟩ := h.ends (.inl (by simpa using hs))
    generalize hx : s.control = x at hends
    generalize t.control = y at hends
    cases hends with
    | raise => simp [error?, hx] at herr
    | next hn => simp [hnext] at hn
  induction fuel generalizing s t with
  | zero =>
    simp only [run] at hrun
    split_ifs at hrun with hs
    cases hrun
    rw [hgoes h herr] at hs
    cases hs
  | succ fuel ih =>
    rw [run_succ] at hrun
    obtain hstep | ⟨more, handover⟩ := h.step
    · obtain ⟨n, store, hn, hstore⟩ := ih hstep hrun
      exact ⟨n + 1, store, by rw [Function.iterate_succ_apply, hn], hstore⟩
    · obtain rfl : more = rest := Option.some.inj (handover.next.symm.trans hnext)
      obtain ⟨x, ks, registers, store, output⟩ := s
      obtain rfl : x = .done .next := handover.control
      obtain rfl : ks = [.sequence []] := handover.stack
      rw [run_of_halted rfl] at hrun
      cases hrun
      refine ⟨0, t.store, ?_, handover.store⟩
      conv_lhs => rw [Function.iterate_zero_apply, handover.there, handover.output]
      rfl

section Together

variable (hnext : J.next = none)

include hnext

theorem iterate (h : s.Like J t) (n : Nat) :
    ((State.step mode)^[n] s).Like J ((State.step mode)^[n] t) := by
  induction n generalizing s t with
  | zero => exact h
  | succ n ih =>
    rw [Function.iterate_succ_apply, Function.iterate_succ_apply]
    obtain hstep | ⟨rest, handover⟩ := h.step
    · exact ih hstep
    · cases handover.next.symm.trans hnext

/-- Both runs halt after the same number of steps, and are alike then. -/
theorem run_rel (h : s.Like J t) (fuel : Nat) :
    Option.Rel (fun s t => s.Like J t ∧ s.halted = true) (run mode fuel s) (run mode fuel t) := by
  have hlast : ((State.step mode)^[fuel] s).Like J ((State.step mode)^[fuel] t) :=
    h.iterate hnext fuel
  rw [← Nat.add_zero fuel, run_add, run_add]
  simp only [run]
  by_cases hs : ((State.step mode)^[fuel] s).halted = true
  · obtain ⟨⟨-, ht⟩, -⟩ := hlast.ends (.inl hs)
    rw [if_pos hs, if_pos ht]
    exact .some ⟨hlast, hs⟩
  · have ht : ¬ ((State.step mode)^[fuel] t).halted = true := fun ht =>
      hs (hlast.ends (.inr ht)).1.1
    rw [if_neg hs, if_neg ht]
    exact .none

end Together

end State.Like

end Wandika
