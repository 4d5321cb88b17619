import Wandika.Proofs.Machine.Stored

/-!
# Chains of frames

A frame is made inside a frame that is there already, so frames that enclose others are older, and
every chain of frames ends in the global one.

* `Frames.Path`, `Frames.Search`: the frames around a frame, and the search for a name among them,
  neither of them bounded;
* `Frames.Ordered`: frames that enclose others are older. There, `Frames.Ordered.exists_path` gives
  the path from a frame outwards, and `Frames.Ordered.holder?_eq` the frame that the bounded search
  finds on it;
* `Frames.Rooted`: every frame but the global one lies inside an older one;
* `Frames.Rooted.grounded`: there, the frames around a frame are a path to the global one, and the
  bounded operations on frames follow it;
* `Value.Proper`: the eight kinds of values;
* `State.Rooted`, `State.Rooted.step`: the frames of a state, and the frames that its registers,
  marks and functions name;
* `store_well_formed`: the states of a session are of this sort.
-/

namespace Wandika

namespace Frames

variable {α : Type}

/-- The frames that are visited from a frame outwards, up to one that nothing encloses. -/
inductive Path (fs : Frames α) : FrameId → List FrameId → Prop
  | last {f : FrameId} (made : f < fs.size) (outermost : fs.enclosing? f = none) : Path fs f [f]
  | step {f g : FrameId} {path : List FrameId} (enclosing : fs.enclosing? f = some g)
      (rest : Path fs g path) : Path fs f (f :: path)

/-- The search for a name from a frame outwards, with the frame that it finds. -/
inductive Search (fs : Frames α) (name : String) : FrameId → Option FrameId → Prop
  | here {f : FrameId} (bound : (fs.lookup f name).isSome) : Search fs name f (some f)
  | outwards {f g : FrameId} {found : Option FrameId} (unbound : fs.lookup f name = none)
      (enclosing : fs.enclosing? f = some g) (rest : Search fs name g found) :
      Search fs name f found
  | nowhere {f : FrameId} (unbound : fs.lookup f name = none)
      (outermost : fs.enclosing? f = none) : Search fs name f none

/-- The global frame is outermost, and every other frame lies inside an older one. -/
structure Rooted (fs : Frames α) : Prop where
  made : globalFrame < fs.size
  outermost : fs.enclosing? globalFrame = none
  older : ∀ f < fs.size, f ≠ globalFrame → ∃ g < f, fs.enclosing? f = some g

/-- The frames from a frame outwards are different ones and end in the global frame. The frame that
many steps out is found on this path, and so is the nearest frame that binds a name. -/
structure Grounded (fs : Frames α) (frame : FrameId) (path : List FrameId) : Prop where
  visits : fs.Path frame path
  nodup : path.Nodup
  last : path.getLast? = some globalFrame
  ancestor : ∀ distance, fs.ancestor? frame distance = path[distance]?
  search : ∀ name, fs.Search name frame (fs.holder? frame name)

/-- A frame that encloses another is older. -/
def Ordered (fs : Frames α) : Prop :=
  ∀ f g, fs.enclosing? f = some g → g < f

/-- Whether a frame binds a name. -/
def binds (fs : Frames α) (name : String) (f : FrameId) : Bool :=
  (fs.lookup f name).isSome

section Paths

variable {fs : Frames α} {f : FrameId} {path : List FrameId}

namespace Path

theorem ancestor?_eq (h : fs.Path f path) (distance : Nat) :
    fs.ancestor? f distance = path[distance]? := by
  induction h generalizing distance with
  | last made outermost =>
    cases distance with
    | zero => rfl
    | succ distance => simp [ancestor?, outermost]
  | step enclosing rest ih =>
    cases distance with
    | zero => rfl
    | succ distance => simp [ancestor?, enclosing, ih]

/-- With a step for every frame of the path, the search finds the first that binds the name. -/
theorem holderWithin_eq (h : fs.Path f path) (name : String) {steps : Nat}
    (hsteps : path.length ≤ steps) :
    fs.holderWithin name steps f = path.find? (fs.binds name) := by
  induction h generalizing steps with
  | @last f made outermost =>
    obtain ⟨steps, rfl⟩ := Nat.exists_eq_add_of_le' hsteps
    by_cases hbound : (fs.lookup f name).isSome
    · simp [holderWithin, binds, hbound]
    · simp [holderWithin, binds, hbound, outermost]
  | @step f g path enclosing rest ih =>
    rw [List.length_cons] at hsteps
    obtain ⟨steps, rfl⟩ := Nat.exists_eq_succ_of_ne_zero (Nat.ne_zero_of_lt hsteps)
    by_cases hbound : (fs.lookup f name).isSome
    · simp [holderWithin, binds, hbound]
    · simp [holderWithin, binds, hbound, enclosing, ih (Nat.le_of_succ_le_succ hsteps)]

theorem search (h : fs.Path f path) (name : String) :
    fs.Search name f (path.find? (fs.binds name)) := by
  induction h with
  | @last f made outermost =>
    cases hbound : fs.binds name f with
    | true => simpa [hbound] using Search.here hbound
    | false =>
      have hunbound := Option.not_isSome_iff_eq_none.1 (Bool.eq_false_iff.1 hbound)
      simpa [hbound] using Search.nowhere hunbound outermost
  | @step f g path enclosing rest ih =>
    cases hbound : fs.binds name f with
    | true => simpa [hbound] using Search.here hbound
    | false =>
      have hunbound := Option.not_isSome_iff_eq_none.1 (Bool.eq_false_iff.1 hbound)
      simpa [hbound] using Search.outwards hunbound enclosing ih

theorem made (h : fs.Path f path) : f < fs.size := by
  cases h with
  | last made outermost => exact made
  | step enclosing rest =>
    obtain ⟨frame, hframe, -⟩ := Option.bind_eq_some_iff.1 enclosing
    exact lt_of_frame? hframe

/-- The path stops at a frame that nothing encloses. -/
theorem getLast?_eq (h : fs.Path f path) :
    ∃ g < fs.size, path.getLast? = some g ∧ fs.enclosing? g = none := by
  induction h with
  | last made outermost => exact ⟨_, made, rfl, outermost⟩
  | @step _ _ path _ _ ih =>
    obtain ⟨g, hmade, hlast, houtermost⟩ := ih
    have hne : path ≠ [] := by rintro rfl; cases hlast
    exact ⟨g, hmade, by rw [List.getLast?_cons_of_ne_nil hne, hlast], houtermost⟩

end Path

namespace Ordered

variable (h : fs.Ordered)

include h

theorem exists_path (hf : f < fs.size) : ∃ path, fs.Path f path := by
  induction f using Nat.strong_induction_on with
  | _ f ih =>
    cases henclosing : fs.enclosing? f with
    | none => exact ⟨[f], .last hf henclosing⟩
    | some g =>
      have hlt := h f g henclosing
      obtain ⟨path, hpath⟩ := ih g hlt (hlt.trans hf)
      exact ⟨f :: path, .step henclosing hpath⟩

/-- The frames from a frame outwards are never younger than it. -/
theorem le_of_mem (hpath : fs.Path f path) : ∀ g ∈ path, g ≤ f := by
  induction hpath with
  | last made outermost => simp
  | step enclosing rest ih =>
    exact List.forall_mem_cons.2 ⟨le_rfl, fun x hx => (ih x hx).trans (h _ _ enclosing).le⟩

theorem nodup (hpath : fs.Path f path) : path.Nodup := by
  induction hpath with
  | last made outermost => exact List.nodup_singleton _
  | @step f g path enclosing rest ih =>
    -- nothing on the way out is younger than the frame around this one, so it never comes back
    have hlt := h f g enclosing
    have hnew : f ∉ path := fun hmem => absurd (h.le_of_mem rest f hmem) (Nat.not_le.2 hlt)
    exact List.nodup_cons.2 ⟨hnew, ih⟩

theorem length_le (hpath : fs.Path f path) : path.length ≤ f + 1 := by
  induction hpath with
  | last made outermost => simp
  | step enclosing rest ih =>
    rw [List.length_cons]
    exact Nat.succ_le_succ (ih.trans (h _ _ enclosing))

/-- As many steps as there are frames are enough for the search. -/
theorem holder?_eq (hpath : fs.Path f path) (name : String) :
    fs.holder? f name = path.find? (fs.binds name) :=
  hpath.holderWithin_eq name ((h.length_le hpath).trans hpath.made)

theorem define (frame : FrameId) (name : String) (v : α) : (fs.define frame name v).Ordered := by
  intro f g henclosing
  rw [enclosing?_define] at henclosing
  exact h f g henclosing

/-- A frame is made inside one that is there, or inside none. -/
theorem push {enclosing : Option FrameId} (hmade : ∀ g ∈ enclosing, g < fs.size)
    (bindings : Bindings α) : (fs.push ⟨enclosing, bindings⟩).Ordered := by
  intro f g henclosing
  rcases lt_or_ge f fs.size with hlt | hge
  · rw [enclosing?, frame?_push_of_lt fs _ hlt] at henclosing
    exact h f g henclosing
  · obtain ⟨frame, hframe, hg⟩ := Option.bind_eq_some_iff.1 henclosing
    have hf : f < fs.size + 1 := by simpa using lt_of_frame? hframe
    obtain rfl : f = fs.size := Nat.le_antisymm (Nat.le_of_lt_succ hf) hge
    rw [frame?_push_size] at hframe
    obtain rfl := Option.some.inj hframe
    exact hmade g hg

end Ordered

namespace Rooted

theorem ordered (h : fs.Rooted) : fs.Ordered := by
  intro f g henclosing
  obtain ⟨frame, hframe, -⟩ := Option.bind_eq_some_iff.1 henclosing
  have hne : f ≠ globalFrame := by
    rintro rfl
    cases h.outermost.symm.trans henclosing
  obtain ⟨g', hlt, henclosing'⟩ := h.older f (lt_of_frame? hframe) hne
  cases henclosing.symm.trans henclosing'
  exact hlt

theorem eq_globalFrame (h : fs.Rooted) (hf : f < fs.size) (hnone : fs.enclosing? f = none) :
    f = globalFrame := by
  by_contra hne
  obtain ⟨g, -, henclosing⟩ := h.older f hf hne
  cases hnone.symm.trans henclosing

theorem grounded (h : fs.Rooted) (hf : f < fs.size) : ∃ path, fs.Grounded f path := by
  obtain ⟨path, hpath⟩ := h.ordered.exists_path hf
  obtain ⟨g, hmade, hlast, houtermost⟩ := hpath.getLast?_eq
  rw [h.eq_globalFrame hmade houtermost] at hlast
  refine ⟨path, hpath, h.ordered.nodup hpath, hlast, hpath.ancestor?_eq, fun name => ?_⟩
  rw [h.ordered.holder?_eq hpath name]
  exact hpath.search name

theorem define (h : fs.Rooted) (frame : FrameId) (name : String) (v : α) :
    (fs.define frame name v).Rooted where
  made := by rw [size_define]; exact h.made
  outermost := by rw [enclosing?_define]; exact h.outermost
  older f hf hne := by
    rw [size_define] at hf
    rw [enclosing?_define]
    exact h.older f hf hne

/-- A frame is made inside one that is there. -/
theorem push (h : fs.Rooted) (hf : f < fs.size) (bindings : Bindings α) :
    (fs.push ⟨some f, bindings⟩).Rooted where
  made := by rw [size_push]; exact Nat.lt_succ_of_lt h.made
  outermost := by
    rw [enclosing?, frame?_push_of_lt fs _ h.made]
    exact h.outermost
  older g hg hne := by
    rw [size_push] at hg
    rcases Nat.lt_succ_iff_lt_or_eq.1 hg with hlt | rfl
    · obtain ⟨outer, houter, henclosing⟩ := h.older g hlt hne
      exact ⟨outer, houter, enclosing?_push henclosing⟩
    · exact ⟨f, hf, by simp [enclosing?]⟩

end Rooted

end Paths

end Frames

theorem Store.rooted_empty : Store.empty.frames.Rooted where
  made := by decide
  outermost := rfl
  older f hf hne := by
    have hsize : Store.empty.frames.size = 1 := rfl
    rw [hsize] at hf
    exact absurd (Nat.lt_one_iff.1 hf) hne

/-! ### Values -/

/-- The values of the language: everything but the lack of a value. -/
inductive Value.Proper : Value → Prop
  | nil : Proper .nil
  | number (x : Float) : Proper (.number x)
  | text (s : String) : Proper (.text s)
  | bool (b : Bool) : Proper (.bool b)
  | cls (c : Class) : Proper (.datum (.cls c))
  | object (o : Object) : Proper (.object o)
  | function (f : Closure) : Proper (.function f)
  | overloads (o : Overloads) : Proper (.overloads o)

theorem Datum.proper {d : Datum} (h : d ≠ .absent) : (Value.datum d).Proper := by
  cases d with
  | absent => exact absurd rfl h
  | nil => exact .nil
  | number x => exact .number x
  | text s => exact .text s
  | bool b => exact .bool b
  | cls c => exact .cls c
  | object o => exact .object o

theorem Datum.ne_absent_of_fromText {d : Datum} (h : d.fromText = true) : d ≠ .absent := by
  rintro rfl
  cases h

theorem Store.proper_joined (bound : Option Value) (f : Closure) (id : Nat) :
    (Store.joined bound f id).Proper := by
  unfold Store.joined
  dsimp only
  split
  · split_ifs
    · exact .function f
    · exact .overloads _
  · exact .overloads _
  · exact .function f

/-- Every value that a step makes is one of the language. -/
theorem State.Makes.proper {mode : Mode} {s : State} {v : Value} (h : s.Makes mode v) :
    v.Proper := by
  cases h with
  | plain h => exact Datum.proper (Datum.ne_absent_of_fromText h)
  | literal control present => exact Datum.proper present
  | cls name => exact .cls _
  | object c store => exact .object _
  | function control => exact Store.proper_joined _ _ _

/-! ### States -/

/-- The frame that work which waits goes back to. -/
def Pending.frame? : Pending → Option FrameId
  | .leaveBlock frame => some frame
  | .leaveCall registers => some registers.frame
  | _ => none

theorem Pending.frame?_of_isMark {k : Pending} (h : k.isMark = false) : k.frame? = none := by
  cases k with
  | leaveBlock | leaveCall => cases h
  | _ => rfl

namespace State

/-- The frames are rooted, the frames that registers, marks and functions name are there, and every
value is one of the language. -/
structure Rooted (s : State) : Prop where
  frames : s.store.frames.Rooted
  current : s.registers.frame < s.store.frames.size
  marks : ∀ k ∈ s.stack, ∀ f ∈ k.frame?, f < s.store.frames.size
  closures : ∀ v, s.Stored v → ∀ f ∈ v.closures, f.frame < s.store.frames.size
  proper : ∀ v, s.Stored v → v.Proper

section Steps

variable {mode : Mode} {s t : State}

/-- No frame is ever given back. -/
theorem size_step (mode : Mode) (s : State) :
    s.store.frames.size ≤ (s.step mode).store.frames.size := by
  have h := effect_step mode s
  generalize (s.step mode).store = store at h ⊢
  cases h with
  | keeps | makes | sets => exact Nat.le_refl _
  | opens | enters => exact (Frames.size_push _ _).symm ▸ Nat.le_succ _
  | declaresClass | declaresFunction | bindsNil | binds | assigns =>
    exact (Frames.size_define _ _ _ _).symm ▸ Nat.le_refl _

namespace Rooted

variable (h : s.Rooted)

include h

theorem frames_step : (s.step mode).store.frames.Rooted := by
  have heffect := effect_step mode s
  generalize (s.step mode).store = store at heffect ⊢
  cases heffect with
  | keeps | makes | sets => exact h.frames
  | opens body control => exact h.frames.push h.current []
  | enters c f ready target =>
    exact h.frames.push (h.closures _ (stored_of_ready ready).1 f (of_target? target).1) _
  | declaresClass | declaresFunction | bindsNil | binds | assigns => exact h.frames.define _ _ _

/-- The registers and the marks name frames that are there, also when a block or a call has made
one. -/
theorem registers_step : (s.step mode).registers.frame < (s.step mode).store.frames.size ∧
    ∀ k ∈ (s.step mode).stack, ∀ f ∈ k.frame?, f < (s.step mode).store.frames.size := by
  have hsize := size_step mode s
  have hmove := move_step mode s
  generalize s.step mode = t at hsize hmove
  have hcurrent : s.registers.frame < t.store.frames.size := h.current.trans_le hsize
  have hmarks : ∀ k ∈ s.stack, ∀ f ∈ k.frame?, f < t.store.frames.size :=
    fun k hk f hf => (h.marks k hk f hf).trans_le hsize
  have hwork : ∀ k : Pending, k.isMark = false → ∀ f ∈ k.frame?, f < t.store.frames.size := by
    intro k hk f hf
    rw [Pending.frame?_of_isMark hk] at hf
    cases hf
  cases hmove with
  | rests same =>
    subst same
    exact ⟨h.current, h.marks⟩
  | goes control stack registers =>
    rw [stack, registers]
    exact ⟨hcurrent, hmarks⟩
  | pushes e k awaits push =>
    subst push
    exact ⟨hcurrent, List.forall_mem_cons.2 ⟨hwork k (Control.isMark_of_awaits? awaits), hmarks⟩⟩
  | drops k stack work registers =>
    rw [stack] at hmarks
    rw [registers]
    exact ⟨hcurrent, (List.forall_mem_cons.1 hmarks).2⟩
  | replaces k k' ks before after work later registers =>
    rw [before] at hmarks
    rw [after, registers]
    exact ⟨hcurrent, List.forall_mem_cons.2
      ⟨hwork k' (Pending.isMark_of_isLater later), (List.forall_mem_cons.1 hmarks).2⟩⟩
  | opens body control stack registers size =>
    rw [stack, registers]
    refine ⟨by simp [size], List.forall_mem_cons.2 ⟨by simp [Pending.frame?], ?_⟩⟩
    exact List.forall_mem_cons.2 ⟨by simpa [Pending.frame?] using hcurrent, hmarks⟩
  | enters k ks f before work after registers size limit =>
    rw [before] at hmarks
    rw [after, registers]
    refine ⟨by simp [size], List.forall_mem_cons.2 ⟨by simp [Pending.frame?], ?_⟩⟩
    exact List.forall_mem_cons.2
      ⟨by simpa [Pending.frame?] using hcurrent, (List.forall_mem_cons.1 hmarks).2⟩
  | leavesBlock frame stack registers =>
    rw [stack] at hmarks
    rw [registers]
    obtain ⟨hframe, hrest⟩ := List.forall_mem_cons.1 hmarks
    exact ⟨hframe frame rfl, hrest⟩
  | leavesCall stack =>
    rw [stack] at hmarks
    obtain ⟨hframe, hrest⟩ := List.forall_mem_cons.1 hmarks
    exact ⟨hframe _ rfl, hrest⟩

theorem closures_step {v : Value} (hv : (s.step mode).Stored v) :
    ∀ f ∈ v.closures, f.frame < (s.step mode).store.frames.size := by
  intro f hf
  refine Nat.lt_of_lt_of_le ?_ (size_step mode s)
  rcases stored_step_cases hv with hold | hmakes
  · exact h.closures v hold f hf
  · cases hmakes with
    | plain | literal | cls | object => cases hf
    | function control =>
      rcases Store.mem_closures_joined hf with rfl | ⟨w, hw, hf⟩
      · exact h.current
      · exact h.closures w (.bound _ _ hw) f hf

/-- A step keeps the frames rooted. -/
theorem step (mode : Mode) : (s.step mode).Rooted where
  frames := h.frames_step
  current := h.registers_step.1
  marks := h.registers_step.2
  closures _ hv := h.closures_step hv
  proper v hv := (stored_step_cases hv).elim (h.proper v) Makes.proper

/-- The next unit begins in the global frame of the store that was left. -/
theorem next (stmts : List Stmt) (locals : Locals) : (State.start s.store stmts locals).Rooted where
  frames := h.frames
  current := h.frames.made
  marks := by simp [State.start, Pending.frame?]
  closures v hv := h.closures v (stored_next hv)
  proper v hv := h.proper v (stored_next hv)

end Rooted

end Steps

theorem rooted_first (stmts : List Stmt) (locals : Locals) :
    (State.start Store.empty stmts locals).Rooted where
  frames := Store.rooted_empty
  current := Store.rooted_empty.made
  marks := by simp [State.start, Pending.frame?]
  closures _ hv := absurd hv not_stored_first
  proper _ hv := absurd hv not_stored_first

end State

theorem Course.rooted {mode : Mode} {past : List State} (h : Course mode past) :
    ∀ s ∈ past, s.Rooted := by
  induction h with
  | first u => exact List.forall_mem_singleton.2 (State.rooted_first _ _)
  | step _ ih => exact List.forall_mem_cons.2 ⟨(ih _ List.mem_cons_self).step mode, ih⟩
  | next _ _ u ih => exact List.forall_mem_cons.2 ⟨(ih _ List.mem_cons_self).next _ _, ih⟩

/-- In every state of a session, the frames from the current one outwards, and those from the frame
of any function outwards, are different ones and end in the global frame, which alone has nothing
around it; so the searches for a name and the way to an ancestor come to an end. The function may
be kept anywhere: in a frame, in a field, in a set of overloads, as the outcome at hand or by work
that waits. And every value that is kept anywhere, also as an argument of a call that is made next,
is one of the eight kinds of the language. -/
theorem store_well_formed {mode : Mode} {past : List State} (h : Course mode past) :
    ∀ s ∈ past,
      (∃ path, s.store.frames.Grounded s.registers.frame path) ∧
      (∀ v, s.Stored v → ∀ f ∈ v.closures, ∃ path, s.store.frames.Grounded f.frame path) ∧
      (∀ frame < s.store.frames.size, s.store.frames.enclosing? frame = none →
        frame = globalFrame) ∧
      (∀ v, s.Stored v → v.Proper) ∧
      ∀ c, s.ready? = some c → c.callee.Proper ∧ ∀ v ∈ c.args, v.Proper := by
  intro s hs
  have hrooted := h.rooted s hs
  refine ⟨hrooted.frames.grounded hrooted.current, fun v hv f hf => ?_,
    fun frame => hrooted.frames.eq_globalFrame, hrooted.proper, fun c hc => ?_⟩
  · exact hrooted.frames.grounded (hrooted.closures v hv f hf)
  · obtain ⟨hcallee, hargs⟩ := State.stored_of_ready hc
    exact ⟨hrooted.proper _ hcallee, fun v hv => hrooted.proper v (hargs v hv)⟩

/-- The function that is being returned, if one is. -/
def Control.returned? : Control → Option Closure
  | .done (.returned (.function g)) => some g
  | _ => none

theorem Control.eq_of_returned? {c : Control} {g : Closure} (h : c.returned? = some g) :
    c = .done (.returned (.function g)) := by
  unfold Control.returned? at h
  split at h
  · rw [Option.some.inj h]
  · cases h

/-- A call of `f` runs a function of a block that has ended, and returns it: the frame of the call
lies inside the frame of the block. -/
theorem store_well_formed_returned : ∃ (s : State) (past : List State) (g : Closure),
    State.after? {} "var f; \x7b func g() \x7b return f; \x7d f = g; \x7d f();".toList 23 = some s ∧
    Course {} (s :: past) ∧ s.control = .done (.returned (.function g)) ∧ g.frame = 1 ∧
    s.registers.frame = 2 ∧ (Value.function g).Proper ∧
    (∃ path, s.store.frames.Grounded g.frame path ∧ path[1]? = some globalFrame) ∧
    ∃ path, s.store.frames.Grounded s.registers.frame path ∧ path[1]? = some g.frame := by
  have hcheck : ((State.after? {}
      "var f; \x7b func g() \x7b return f; \x7d f = g; \x7d f();".toList 23).any fun s =>
        s.control.returned?.any fun g => decide (g.frame = 1 ∧ s.registers.frame = 2 ∧
          s.store.frames.ancestor? 1 1 = some globalFrame ∧
          s.store.frames.ancestor? 2 1 = some 1)) = true := by decide +kernel
  simp only [Option.any_eq_true, decide_eq_true_eq] at hcheck
  obtain ⟨s, hs, g, hreturned, hg, hframe, houter, hinner⟩ := hcheck
  have hcontrol := Control.eq_of_returned? hreturned
  obtain ⟨past, hpast⟩ := Course.of_after? hs
  have hstored : s.Stored (.function g) := .control (by simp [hcontrol, Control.values])
  obtain ⟨⟨current, hcurrent⟩, hclosures, -, hproper, -⟩ :=
    store_well_formed hpast s List.mem_cons_self
  obtain ⟨path, hpath⟩ := hclosures _ hstored g List.mem_cons_self
  refine ⟨s, past, g, hs, hpast, hcontrol, hg, hframe, hproper _ hstored, ⟨path, hpath, ?_⟩,
    current, hcurrent, ?_⟩
  · rw [← hpath.ancestor, hg, houter]
  · rw [← hcurrent.ancestor, hframe, hinner, hg]

end Wandika
