import Wandika.Proofs.Machine.Places

/-!
# Scopes and frames are aligned

* `PendingOk`, `StackOk`: work that waits at the places of the frames it will go on in;
* `ControlOk`, `StoreOk`: how the work at hand and the store fit the record;
* `Aligned`: the invariant of a run.
-/

namespace Wandika

/-! ### Work -/

section Work

variable (t : Trail) (fs : Frames Value) (u : SourceUnit) (frame : FrameId)

/-- The expression stands at the place of the frame. -/
def PlacedExpr (e : Expr) : Prop :=
  ∃ layers, t.Holds fs u layers frame ∧ u.HasExpr layers e

/-- The statement stands at the place of the frame. -/
def PlacedStmt (s : Stmt) : Prop :=
  ∃ layers, t.Holds fs u layers frame ∧ u.HasStmt layers s

/-- The work stands at the place of the frame, and the values in it are known. The names of `gain`
will be bound in the frame when a completion is handed to the work. -/
def PendingOk (gain : List String) : Pending → Prop
  | .assign id name => ∃ layers, t.Holds fs u layers frame ∧ u.HasNode layers id name
  | .rightOperand _ rhs => PlacedExpr t fs u frame rhs
  | .binary _ lhs => t.KnowsValue fs lhs
  | .callee _ args => ∀ e ∈ args, PlacedExpr t fs u frame e
  | .argument _ callee before after =>
      t.KnowsValue fs callee ∧ (∀ v ∈ before, t.KnowsValue fs v) ∧
        ∀ e ∈ after, PlacedExpr t fs u frame e
  | .logical _ rhs => PlacedExpr t fs u frame rhs
  | .fieldOwner _ value => PlacedExpr t fs u frame value
  | .choose yes no => PlacedExpr t fs u frame yes ∧ ∀ e ∈ no, PlacedExpr t fs u frame e
  | .branch yes no => PlacedStmt t fs u frame yes ∧ ∀ s ∈ no, PlacedStmt t fs u frame s
  | .varDecl name => ∃ layers, t.Holds fs u layers frame ∧ Declares layers [name.lexeme]
  | .loopCondition cond body | .loopBody cond body =>
      PlacedExpr t fs u frame cond ∧ PlacedStmt t fs u frame body
  | .sequence rest =>
      ∃ layers names, names ⊆ gain ∧ t.Holds fs u layers frame ∧
        u.HasStmts (settle names layers) rest
  | .property _ | .fieldValue _ _ | .unary _ | .discard _ | .print | .ret => True
  | .leaveBlock _ | .leaveCall _ => False

end Work

/-- The names that are bound in the frame when the work has been completed. -/
def Pending.gain : Pending → List String
  | .varDecl name => [name.lexeme]
  | .branch yes (some no) => yes.settles.filter (· ∈ no.settles)
  | _ => []

/-- The work of a stack fits the record: the unit and the frame are those that are current when the
topmost work is taken up, and the callers those that the calls on the stack return to. -/
inductive StackOk (t : Trail) (fs : Frames Value) :
    SourceUnit → FrameId → List String → List SourceUnit → List Pending → Prop
  | empty {u : SourceUnit} {frame : FrameId} {gain : List String} : StackOk t fs u frame gain [] []
  | work {u : SourceUnit} {frame : FrameId} {gain : List String} {callers : List SourceUnit}
      {k : Pending} {ks : List Pending} (top : PendingOk t fs u frame gain k)
      (rest : StackOk t fs u frame k.gain callers ks) : StackOk t fs u frame gain callers (k :: ks)
  | block {u : SourceUnit} {frame outer : FrameId} {gain : List String}
      {callers : List SourceUnit} {ks : List Pending}
      (rest : StackOk t fs u outer [] callers ks) :
      StackOk t fs u frame gain callers (.leaveBlock outer :: ks)
  | call {u caller : SourceUnit} {frame : FrameId} {gain : List String}
      {callers : List SourceUnit} {registers : Registers} {ks : List Pending}
      (locals : registers.locals = caller.locals)
      (rest : StackOk t fs caller registers.frame [] callers ks) :
      StackOk t fs u frame gain (caller :: callers) (.leaveCall registers :: ks)

section Growth

variable {t t' : Trail} {fs fs' : Frames Value} {u : SourceUnit} {frame : FrameId}
  {gain more : List String}

theorem PlacedExpr.mono (hg : t.Grows fs t' fs') {e : Expr} (h : PlacedExpr t fs u frame e) :
    PlacedExpr t' fs' u frame e := by
  obtain ⟨layers, hh, he⟩ := h
  exact ⟨layers, hh.mono hg, he⟩

theorem PlacedStmt.mono (hg : t.Grows fs t' fs') {s : Stmt} (h : PlacedStmt t fs u frame s) :
    PlacedStmt t' fs' u frame s := by
  obtain ⟨layers, hh, hs⟩ := h
  exact ⟨layers, hh.mono hg, hs⟩

theorem PendingOk.mono (hg : t.Grows fs t' fs') (hm : gain ⊆ more) {k : Pending}
    (h : PendingOk t fs u frame gain k) : PendingOk t' fs' u frame more k := by
  cases k with
  | assign | varDecl =>
    obtain ⟨layers, hh, hr⟩ := h
    exact ⟨layers, hh.mono hg, hr⟩
  | rightOperand | logical | fieldOwner => exact PlacedExpr.mono hg h
  | binary => exact Trail.KnowsValue.mono hg h
  | callee => exact fun e he => (h e he).mono hg
  | argument =>
    exact ⟨h.1.mono hg, fun v hv => (h.2.1 v hv).mono hg, fun e he => (h.2.2 e he).mono hg⟩
  | choose => exact ⟨h.1.mono hg, fun e he => (h.2 e he).mono hg⟩
  | branch => exact ⟨h.1.mono hg, fun s hs => (h.2 s hs).mono hg⟩
  | loopCondition | loopBody => exact ⟨h.1.mono hg, h.2.mono hg⟩
  | sequence =>
    obtain ⟨layers, names, hn, hh, hr⟩ := h
    exact ⟨layers, names, fun x hx => hm (hn hx), hh.mono hg, hr⟩
  | property | fieldValue | unary | discard | print | ret => trivial
  | leaveBlock | leaveCall => exact h

theorem StackOk.mono (hg : t.Grows fs t' fs') {callers : List SourceUnit} {ks : List Pending}
    (h : StackOk t fs u frame gain callers ks) : StackOk t' fs' u frame gain callers ks := by
  induction h with
  | empty => exact .empty
  | work top _ ih => exact .work (top.mono hg (List.Subset.refl _)) ih
  | block _ ih => exact .block ih
  | call locals _ ih => exact .call locals ih

end Growth

/-- A completion may bind more names than the stack waits for. -/
theorem StackOk.gain_mono {t : Trail} {fs : Frames Value} {u : SourceUnit} {frame : FrameId}
    {gain more : List String} {callers : List SourceUnit} {ks : List Pending}
    (h : StackOk t fs u frame gain callers ks) (hm : gain ⊆ more) :
    StackOk t fs u frame more callers ks := by
  cases h with
  | empty => exact .empty
  | work top rest => exact .work (top.mono (.refl t fs) hm) rest
  | block rest => exact .block rest
  | call locals rest => exact .call locals rest

/-- The topmost work of a stack, and what is below it. -/
theorem StackOk.cons_inv {t : Trail} {fs : Frames Value} {u : SourceUnit} {frame : FrameId}
    {gain : List String} {callers : List SourceUnit} {k : Pending} {ks : List Pending}
    (h : StackOk t fs u frame gain callers (k :: ks)) :
    (PendingOk t fs u frame gain k ∧ StackOk t fs u frame k.gain callers ks) ∨
    (∃ outer, k = .leaveBlock outer ∧ StackOk t fs u outer [] callers ks) ∨
    ∃ registers caller rest, k = .leaveCall registers ∧ callers = caller :: rest ∧
      registers.locals = caller.locals ∧ StackOk t fs caller registers.frame [] rest ks := by
  cases h with
  | work top rest => exact Or.inl ⟨top, rest⟩
  | block rest => exact Or.inr (Or.inl ⟨_, rfl, rest⟩)
  | call locals rest => exact Or.inr (Or.inr ⟨_, _, _, rfl, rfl, locals, rest⟩)

/-- The work at hand fits the record. The names of `gain` are bound when it is completed. -/
def ControlOk (t : Trail) (fs : Frames Value) (u : SourceUnit) (frame : FrameId)
    (gain : List String) : Control → Prop
  | .eval e => gain = [] ∧ PlacedExpr t fs u frame e
  | .exec s => gain ⊆ s.settles ∧ PlacedStmt t fs u frame s
  | .value v => t.KnowsValue fs v
  | .done .next => ∀ x ∈ gain, (fs.lookup frame x).isSome
  | .done (.returned v) => t.KnowsValue fs v
  | .raise _ => True

/-- A completion that need not have bound anything. -/
theorem controlOk_next (t : Trail) (fs : Frames Value) (u : SourceUnit) (frame : FrameId) :
    ControlOk t fs u frame [] (.done .next) := by
  intro x hx
  cases hx

/-- A completion that has bound a name. -/
theorem controlOk_bound {t : Trail} {fs : Frames Value} {u : SourceUnit} {frame : FrameId}
    {x : String} (hb : (fs.lookup frame x).isSome) : ControlOk t fs u frame [x] (.done .next) := by
  intro y hy
  rw [List.mem_singleton.1 hy]
  exact hb

/-- The store fits the record: the record speaks of frames and functions that exist, all values are
known, and a frame other than the global one binds only names that its area declares. -/
structure StoreOk (t : Trail) (store : Store) : Prop where
  size : 0 < store.frames.size
  origin_lt : ∀ {f o}, t.origin? f = some o → f < store.frames.size
  declarer_lt : ∀ {n u}, t.declarer? n = some u → n < store.nextId
  bound : ∀ {f x v}, store.frames.lookup f x = some v → t.KnowsValue store.frames v
  field : ∀ {o x v}, store.field? o x = some v → t.KnowsValue store.frames v
  declared : ∀ {f x}, f ≠ globalFrame → (store.frames.lookup f x).isSome →
    ∃ o, t.origin? f = some o ∧ x ∈ o.area.declared

/-- The state fits the record. -/
structure Aligned (t : Trail) (s : State) : Prop where
  store : StoreOk t s.store
  locals : s.registers.locals = t.unit.locals
  work : ∃ gain, ControlOk t s.store.frames t.unit s.registers.frame gain s.control ∧
    StackOk t s.store.frames t.unit s.registers.frame gain t.callers s.stack

end Wandika
