import Wandika.Machine.Variables
import Wandika.Proofs.Machine.Chains

/-!
# Variables by name and by distance

Both ways of finding a variable come to the same frame, if the distance is that of the nearest frame
that binds the name. A change touches one name of one frame, and everyone who finds that frame sees
it.

* `FrameStep`, `Frames.Built`: the ways to make and to change frames, and the frames that come about
  by them, which are ordered (`Frames.Built.ordered`);
* `Frames.Nearest`: the first frame of a chain that binds a name;
* `Frames.Decides`: an operation succeeds under a condition, and else raises the error that the
  variable is undefined and changes nothing;
* `Frames.Rewrites`: one name of one frame is bound to another value, and all else is the same;
* `Frames.variables_agree`: the four operations on variables, together;
* `State.evalStep_variable`, `State.valueStep_assign`: the machine uses these operations.
-/

namespace Wandika

/-! ### How frames come about -/

/-- A step that makes a frame or changes one. -/
inductive FrameStep (α : Type)
  | new (enclosing : Option FrameId)
  | define (frame : FrameId) (name : String) (value : α)
  | assign (frame : FrameId) (name : Token) (value : α)
  | assignAt (frame : FrameId) (distance : Int) (name : Token) (value : α)

namespace FrameStep

variable {α : Type}

/-- The frame that a step names. -/
def frame? : FrameStep α → Option FrameId
  | .new enclosing => enclosing
  | .define frame _ _ => some frame
  | .assign frame _ _ => some frame
  | .assignAt frame _ _ _ => some frame

/-- What a step does. -/
def perform : FrameStep α → EStateM RuntimeError (Frames α) Unit
  | .new enclosing => modify fun fs => fs.push { enclosing }
  | .define frame name value => modify fun fs => fs.define frame name value
  | .assign frame name value => Frames.assign frame name value
  | .assignAt frame distance name value => Frames.assignAt frame distance name value

/-- The frames after a step, also after one that has failed. -/
def apply (step : FrameStep α) (fs : Frames α) : Frames α :=
  match step.perform fs with
  | .ok _ fs' => fs'
  | .error _ fs' => fs'

/-- An assignment that fails leaves the frames as they are. -/
theorem apply_assign (fs : Frames α) (frame : FrameId) (name : Token) (value : α) :
    (FrameStep.assign frame name value).apply fs =
      (fs.assign? frame name.lexeme value).getD fs := by
  simp only [apply, perform, Frames.assign, Frames.attempt]
  cases fs.assign? frame name.lexeme value <;> rfl

theorem apply_assignAt (fs : Frames α) (frame : FrameId) (distance : Int) (name : Token)
    (value : α) :
    (FrameStep.assignAt frame distance name value).apply fs =
      (fs.assignAt? frame distance.toNat name.lexeme value).getD fs := by
  simp only [apply, perform, Frames.assignAt, Frames.attempt]
  cases fs.assignAt? frame distance.toNat name.lexeme value <;> rfl

/-- A step makes a frame, binds one name, or changes nothing. -/
theorem apply_cases (next : FrameStep α) (fs : Frames α) :
    (∃ enclosing, next = .new enclosing ∧ next.apply fs = fs.push { enclosing }) ∨
      (∃ frame name value, next.apply fs = fs.define frame name value) ∨ next.apply fs = fs := by
  cases next with
  | new enclosing => exact .inl ⟨enclosing, rfl, rfl⟩
  | define frame name value => exact .inr (.inl ⟨frame, name, value, rfl⟩)
  | assign frame name value =>
    rw [apply_assign, Frames.assign?]
    cases fs.holder? frame name.lexeme with
    | none => exact .inr (.inr rfl)
    | some f => exact .inr (.inl ⟨f, name.lexeme, value, rfl⟩)
  | assignAt frame distance name value =>
    rw [apply_assignAt, Frames.assignAt?]
    cases fs.holderAt? frame distance.toNat name.lexeme with
    | none => exact .inr (.inr rfl)
    | some f => exact .inr (.inl ⟨f, name.lexeme, value, rfl⟩)

end FrameStep

namespace Frames

variable {α β : Type}

/-- Frames that come about step by step. A step names frames that are there. -/
inductive Built : Frames α → Prop
  | none : Built {}
  | step {fs : Frames α} (built : Built fs) (next : FrameStep α)
      (made : ∀ f ∈ next.frame?, f < fs.size) : Built (next.apply fs)

section Steps

variable {fs : Frames α}

theorem Ordered.apply (h : fs.Ordered) (next : FrameStep α)
    (hmade : ∀ f ∈ next.frame?, f < fs.size) : (next.apply fs).Ordered := by
  obtain ⟨enclosing, rfl, happly⟩ | ⟨frame, name, value, happly⟩ | happly :=
    next.apply_cases fs
  · rw [happly]
    exact h.push hmade []
  · rw [happly]
    exact h.define frame name value
  · rw [happly]
    exact h

theorem Built.ordered (h : fs.Built) : fs.Ordered := by
  induction h with
  | none => intro f g henclosing; cases henclosing
  | step built next made ih => exact ih.apply next made

end Steps

/-! ### What is found on a chain -/

/-- The first frame of a chain that binds a name, and its distance. -/
structure Nearest (fs : Frames α) (name : String) (chain : List FrameId) (distance : Nat)
    (f : FrameId) : Prop where
  there : chain[distance]? = some f
  bound : fs.binds name f = true
  unbound : ∀ i < distance, ∀ g, chain[i]? = some g → fs.binds name g = false

/-- Under the condition an operation has a result. Without it, the operation raises the error that
the variable is undefined, and leaves the frames as they are. -/
def Decides (act : EStateM RuntimeError (Frames α) β) (fs : Frames α) (name : Token) (p : Prop) :
    Prop :=
  (p → ∃ result fs', act fs = .ok result fs') ∧
    (¬ p → ∃ error, act fs = .error error fs ∧ error.token = some name ∧
      error.cause.message = "Undefined variable '" ++ name.lexeme ++ "'.")

/-- The second frames differ from the first in what one frame binds one name to, and in nothing
else. -/
structure Rewrites (fs : Frames α) (f : FrameId) (name : String) (value : α) (fs' : Frames α) :
    Prop where
  size : fs'.size = fs.size
  enclosing : ∀ g, fs'.enclosing? g = fs.enclosing? g
  lookup : ∀ g x, fs'.lookup g x = if g = f ∧ x = name then some value else fs.lookup g x

section Attempts

variable {name : Token} {find : Frames α → Option (β × Frames α)} {fs : Frames α}

theorem attempt_of_some {result : β} {changed : Frames α} (h : find fs = some (result, changed)) :
    attempt name find fs = .ok result changed := by
  rw [attempt, h]

theorem attempt_of_none (h : find fs = none) :
    attempt name find fs = .error ⟨name, .undefinedVariable name.lexeme⟩ fs := by
  rw [attempt, h]

theorem decides_attempt {p : Prop} (h : (find fs).isSome ↔ p) :
    Decides (attempt name find) fs name p := by
  constructor
  · intro hp
    obtain ⟨⟨result, fs'⟩, hfind⟩ := Option.isSome_iff_exists.1 (h.2 hp)
    exact ⟨result, fs', attempt_of_some hfind⟩
  · intro hp
    have hfind : find fs = none := Option.not_isSome_iff_eq_none.1 (mt h.1 hp)
    exact ⟨_, attempt_of_none hfind, rfl, rfl⟩

end Attempts

section Chains

variable {fs : Frames α} {e f : FrameId} {name : String} {chain : List FrameId} {d : Nat}

/-- A name that was found can be read. -/
theorem isSome_bind_lookup {found : Option FrameId} (h : ∀ f ∈ found, fs.binds name f = true) :
    (found.bind fun f => fs.lookup f name).isSome = found.isSome := by
  cases found with
  | none => rfl
  | some f => exact h f rfl

theorem isSome_get? (hfs : fs.Ordered) (hpath : fs.Path e chain) :
    (fs.get? e name).isSome ↔ ∃ f ∈ chain, fs.binds name f = true := by
  rw [get?, hfs.holder?_eq hpath, isSome_bind_lookup fun f => List.find?_some, List.find?_isSome]

theorem isSome_assign? (hfs : fs.Ordered) (hpath : fs.Path e chain) (v : α) :
    (fs.assign? e name v).isSome ↔ ∃ f ∈ chain, fs.binds name f = true := by
  rw [assign?, Option.isSome_map, hfs.holder?_eq hpath, List.find?_isSome]

theorem Path.holderAt?_eq (hpath : fs.Path e chain) (d : Nat) :
    fs.holderAt? e d name = chain[d]?.filter (fs.binds name) := by
  rw [holderAt?, hpath.ancestor?_eq]
  rfl

theorem Path.isSome_getAt? (hpath : fs.Path e chain) (d : Nat) :
    (fs.getAt? e d name).isSome ↔ ∃ f, chain[d]? = some f ∧ fs.binds name f = true := by
  rw [getAt?, hpath.holderAt?_eq, isSome_bind_lookup fun f hf => (Option.mem_filter_iff.1 hf).2]
  simp [Option.isSome_filter, Option.any_eq_true]

theorem Path.isSome_assignAt? (hpath : fs.Path e chain) (d : Nat) (v : α) :
    (fs.assignAt? e d name v).isSome ↔ ∃ f, chain[d]? = some f ∧ fs.binds name f = true := by
  rw [assignAt?, Option.isSome_map, hpath.holderAt?_eq]
  simp [Option.isSome_filter, Option.any_eq_true]

theorem Path.define (hpath : fs.Path e chain) (f : FrameId) (name : String) (v : α) :
    (fs.define f name v).Path e chain := by
  induction hpath with
  | last made outermost =>
    exact .last ((size_define fs f name v).symm ▸ made)
      ((enclosing?_define fs f _ name v).trans outermost)
  | step enclosing rest ih => exact .step ((enclosing?_define fs f _ name v).trans enclosing) ih

theorem exists_nearest (h : ∃ f ∈ chain, fs.binds name f = true) :
    ∃ d f, fs.Nearest name chain d f := by
  obtain ⟨f, hfind⟩ := Option.isSome_iff_exists.1 (List.find?_isSome.2 h)
  obtain ⟨hbound, d, hd, rfl, hunbound⟩ := List.find?_eq_some_iff_getElem.1 hfind
  refine ⟨d, _, List.getElem?_eq_getElem hd, hbound, ?_⟩
  intro i hi g hg
  obtain ⟨_, rfl⟩ := List.getElem?_eq_some_iff.1 hg
  simpa using hunbound i hi

/-- A change of a name where it is bound leaves it bound in the same frames. -/
theorem binds_define (h : fs.binds name f = true) (g : FrameId) (v : α) :
    (fs.define f name v).binds name g = fs.binds name g := by
  rw [binds, lookup_define fs (lt_of_lookup h)]
  split_ifs with hg
  · rw [hg.1]
    exact h.symm
  · rfl

theorem rewrites_define (h : fs.binds name f = true) (v : α) :
    fs.Rewrites f name v (fs.define f name v) where
  size := size_define fs f name v
  enclosing g := enclosing?_define fs f g name v
  lookup g x := lookup_define fs (lt_of_lookup h) g name x v

namespace Nearest

variable (h : fs.Nearest name chain d f)

include h

theorem find?_eq : chain.find? (fs.binds name) = some f := by
  obtain ⟨hd, hf⟩ := List.getElem?_eq_some_iff.1 h.there
  refine List.find?_eq_some_iff_getElem.2 ⟨h.bound, d, hd, hf, ?_⟩
  intro i hi
  rw [h.unbound i hi _ (List.getElem?_eq_getElem (hi.trans hd))]
  rfl

theorem holder?_eq (hfs : fs.Ordered) (hpath : fs.Path e chain) : fs.holder? e name = some f := by
  rw [hfs.holder?_eq hpath, h.find?_eq]

theorem holderAt?_eq (hpath : fs.Path e chain) : fs.holderAt? e d name = some f := by
  rw [hpath.holderAt?_eq, h.there, Option.filter_some, if_pos h.bound]

theorem define (v : α) : (fs.define f name v).Nearest name chain d f where
  there := h.there
  bound := (binds_define h.bound f v).trans h.bound
  unbound i hi g hg := (binds_define h.bound g v).trans (h.unbound i hi g hg)

end Nearest

section Operations

variable {x : Token} (h : fs.Nearest x.lexeme chain d f) (hpath : fs.Path e chain)

include h hpath

theorem get_of_nearest (hfs : fs.Ordered) {v : α} (hv : fs.lookup f x.lexeme = some v) :
    get e x fs = .ok v fs := by
  apply attempt_of_some
  rw [get?, h.holder?_eq hfs hpath, Option.bind_some, hv]
  rfl

theorem getAt_of_nearest {v : α} (hv : fs.lookup f x.lexeme = some v) :
    getAt e d x fs = .ok v fs := by
  apply attempt_of_some
  rw [Int.toNat_natCast, getAt?, h.holderAt?_eq hpath, Option.bind_some, hv]
  rfl

theorem assign_of_nearest (hfs : fs.Ordered) (v : α) :
    assign e x v fs = .ok () (fs.define f x.lexeme v) := by
  apply attempt_of_some
  rw [assign?, h.holder?_eq hfs hpath]
  rfl

theorem assignAt_of_nearest (v : α) : assignAt e d x v fs = .ok () (fs.define f x.lexeme v) := by
  apply attempt_of_some
  rw [Int.toNat_natCast, assignAt?, h.holderAt?_eq hpath]
  rfl

/-- Whoever finds the frame of a change reads what was written. -/
theorem get_define_of_nearest (hfs : fs.Ordered) (v : α) :
    get e x (fs.define f x.lexeme v) = .ok v (fs.define f x.lexeme v) := by
  apply get_of_nearest (h.define v) (hpath.define f x.lexeme v) (hfs.define f x.lexeme v)
  rw [lookup_define fs (lt_of_lookup h.bound), if_pos ⟨rfl, rfl⟩]

end Operations

end Chains

/-- Take any frames that come about by making frames and by defining and assigning names, one of
them and a name. Reading and assigning the name succeed just if a frame of the chain binds it, and
at a distance just if the frame there does; every failure is the error that the variable is
undefined, and changes nothing. If the name is bound nearest at a distance, then reading it by name
and at that distance gives the same, and so does assigning it: what is left differs from the frames
before in that one binding, and the value is read again from every frame whose chain meets that
binding first. -/
theorem variables_agree {fs : Frames α} (hfs : fs.Built) {e : FrameId} (he : e < fs.size)
    (x : Token) :
    (∃ chain, fs.Path e chain) ∧
      ∀ chain, fs.Path e chain →
        Decides (get e x) fs x (∃ f ∈ chain, fs.binds x.lexeme f) ∧
        (∀ v, Decides (assign e x v) fs x (∃ f ∈ chain, fs.binds x.lexeme f)) ∧
        (∀ d : Int, Decides (getAt e d x) fs x
          (∃ f, chain[d.toNat]? = some f ∧ fs.binds x.lexeme f)) ∧
        (∀ (d : Int) (v : α), Decides (assignAt e d x v) fs x
          (∃ f, chain[d.toNat]? = some f ∧ fs.binds x.lexeme f)) ∧
        ((∃ f ∈ chain, fs.binds x.lexeme f) → ∃ d f, fs.Nearest x.lexeme chain d f) ∧
        ∀ d f, fs.Nearest x.lexeme chain d f →
          (∃ v, fs.lookup f x.lexeme = some v ∧
            get e x fs = .ok v fs ∧ getAt e d x fs = .ok v fs) ∧
          ∀ v, ∃ fs', assign e x v fs = .ok () fs' ∧ assignAt e d x v fs = .ok () fs' ∧
            fs.Rewrites f x.lexeme v fs' ∧ get e x fs' = .ok v fs' ∧
            ∀ e' chain' d', fs.Path e' chain' → fs.Nearest x.lexeme chain' d' f →
              get e' x fs' = .ok v fs' := by
  have hordered := hfs.ordered
  refine ⟨hordered.exists_path he, fun chain hpath => ?_⟩
  refine ⟨decides_attempt ?_, fun v => decides_attempt ?_, fun d => decides_attempt ?_,
    fun d v => decides_attempt ?_, exists_nearest, fun d f hnearest => ⟨?_, fun v => ?_⟩⟩
  · rw [Option.isSome_map, isSome_get? hordered hpath]
  · rw [Option.isSome_map, isSome_assign? hordered hpath]
  · rw [Option.isSome_map, hpath.isSome_getAt?]
  · rw [Option.isSome_map, hpath.isSome_assignAt?]
  · obtain ⟨v, hv⟩ := Option.isSome_iff_exists.1 hnearest.bound
    exact ⟨v, hv, get_of_nearest hnearest hpath hordered hv, getAt_of_nearest hnearest hpath hv⟩
  · refine ⟨fs.define f x.lexeme v, assign_of_nearest hnearest hpath hordered v,
      assignAt_of_nearest hnearest hpath v, rewrites_define hnearest.bound v,
      get_define_of_nearest hnearest hpath hordered v, ?_⟩
    intro e' chain' d' hpath' hnearest'
    exact get_define_of_nearest hnearest' hpath' hordered v

/-- Two frames share the one around them, whose binding hides that of the outermost frame. The
first of them assigns the name, and the second reads what was assigned. -/
theorem variables_agree_shared : ∃ (x : Token) (fs fs' : Frames Value), x.lexeme = "x" ∧
    fs.Built ∧ 2 < fs.size ∧ fs.Path 2 [2, 1, 0] ∧ fs.Nearest "x" [2, 1, 0] 1 1 ∧
    get 2 x fs = .ok (.text "inner") fs ∧ getAt 2 1 x fs = .ok (.text "inner") fs ∧
    (∃ error, getAt 2 5 x fs = .error error fs ∧
      error.cause.message = "Undefined variable 'x'.") ∧
    assign 2 x (.bool true) fs = .ok () fs' ∧ assignAt 2 1 x (.bool true) fs = .ok () fs' ∧
    get 3 x fs' = .ok (.bool true) fs' ∧ fs'.lookup 0 "x" = some (.text "outer") := by
  let x : Token := { kind := .identifier, lexeme := "x" }
  have hbuilt := (Built.none : ({} : Frames Value).Built)
    |>.step (.new none) (by rintro _ ⟨⟩)
    |>.step (.define 0 "x" .nil) (by rintro _ ⟨⟩; decide)
    |>.step (.new (some 0)) (by rintro _ ⟨⟩; decide)
    |>.step (.define 1 "x" .nil) (by rintro _ ⟨⟩; decide)
    |>.step (.new (some 1)) (by rintro _ ⟨⟩; decide)
    |>.step (.new (some 1)) (by rintro _ ⟨⟩; decide)
    |>.step (.assign 3 x (.text "inner")) (by rintro _ ⟨⟩; decide)
    |>.step (.assignAt 2 2 x (.text "outer")) (by rintro _ ⟨⟩; decide)
  obtain ⟨fs, hbuilt, hmade, hpath, hpath', houter, hinner, hown, hown'⟩ : ∃ fs : Frames Value,
      fs.Built ∧ 2 < fs.size ∧ fs.Path 2 [2, 1, 0] ∧ fs.Path 3 [3, 1, 0] ∧
      fs.lookup 0 "x" = some (.text "outer") ∧ fs.lookup 1 "x" = some (.text "inner") ∧
      fs.binds "x" 2 = false ∧ fs.binds "x" 3 = false :=
    ⟨_, hbuilt, by decide, .step rfl (.step rfl (.last (by decide) rfl)),
      .step rfl (.step rfl (.last (by decide) rfl)), rfl, rfl, rfl, rfl⟩
  have hnearest : ∀ e, fs.binds "x" e = false → fs.Nearest "x" [e, 1, 0] 1 1 := by
    intro e hown
    refine ⟨rfl, by rw [binds, hinner]; rfl, fun i hi g hg => ?_⟩
    obtain rfl : i = 0 := by omega
    cases hg
    exact hown
  obtain ⟨-, hagree⟩ := variables_agree hbuilt hmade x
  obtain ⟨-, -, hgetAt, -, -, hagree⟩ := hagree _ hpath
  obtain ⟨⟨v, hv, hread, hreadAt⟩, hwrite⟩ := hagree 1 1 (hnearest 2 hown)
  obtain ⟨fs', hassign, hassignAt, hrewrites, -, hshared⟩ := hwrite (.bool true)
  obtain ⟨error, herror, -, hmessage⟩ := (hgetAt 5).2 (by simp)
  cases hinner.symm.trans hv
  refine ⟨x, fs, fs', rfl, hbuilt, hmade, hpath, hnearest 2 hown, hread, hreadAt,
    ⟨error, herror, hmessage⟩, hassign, hassignAt, hshared 3 _ 1 hpath' (hnearest 3 hown'), ?_⟩
  rw [hrewrites.lookup 0 "x", if_neg (by decide), houter]

end Frames

namespace State

/-- Goes on with a value for the result of an operation on the frames, or with its error. -/
def perform {β : Type} (s : State) (act : EStateM RuntimeError (Frames Value) β)
    (value : β → Value) : State :=
  match act s.store.frames with
  | .ok result frames => { s with control := .value (value result), store.frames := frames }
  | .error e frames => { s with control := .raise e, store.frames := frames }

/-- How a variable is read: at the distance of its node if there is one, and else by name among the
global variables. -/
def reading (s : State) (id : Int) (name : Token) : EStateM RuntimeError (Frames Value) Value :=
  match s.registers.locals.distance? id with
  | some d => Frames.getAt s.registers.frame d name
  | none => Frames.get globalFrame name

/-- How a variable is assigned. -/
def assigning (s : State) (id : Int) (name : Token) (v : Value) :
    EStateM RuntimeError (Frames Value) Unit :=
  match s.registers.locals.distance? id with
  | some d => Frames.assignAt s.registers.frame d name v
  | none => Frames.assign globalFrame name v

section Operations

variable (s : State) (id : Int) (name : Token)

theorem perform_attempt {β : Type} (find : Frames Value → Option (β × Frames Value))
    (value : β → Value) :
    s.perform (Frames.attempt name find) value =
      match find s.store.frames with
      | some (result, frames) =>
        { s with control := .value (value result), store.frames := frames }
      | none => s.fail name (.undefinedVariable name.lexeme) := by
  unfold perform Frames.attempt
  cases find s.store.frames with
  | none => rfl
  | some found => rfl

theorem reading_eq : ∃ find, s.reading id name = Frames.attempt name find ∧
    find s.store.frames = (s.valueOf? id name).map fun v => (v, s.store.frames) := by
  unfold reading valueOf? holder?
  cases s.registers.locals.distance? id with
  | none => exact ⟨_, rfl, rfl⟩
  | some d => exact ⟨_, rfl, rfl⟩

theorem assigning_eq (v : Value) : ∃ find, s.assigning id name v = Frames.attempt name find ∧
    find s.store.frames =
      (s.holder? id name).map fun f => ((), s.store.frames.define f name.lexeme v) := by
  unfold assigning holder?
  cases s.registers.locals.distance? id with
  | none => exact ⟨_, rfl, Option.map_map _ _ _⟩
  | some d => exact ⟨_, rfl, Option.map_map _ _ _⟩

/-- The machine evaluates a variable by reading it. -/
theorem evalStep_variable :
    s.evalStep (.variable id name) = s.perform (s.reading id name) fun v => v := by
  obtain ⟨find, hreading, hfind⟩ := s.reading_eq id name
  rw [hreading, perform_attempt, hfind, evalStep]
  cases s.valueOf? id name with
  | none => rfl
  | some v => rfl

/-- The machine ends an assignment by assigning, and its value is what was assigned. -/
theorem valueStep_assign (mode : Mode) (v : Value) :
    s.valueStep mode v (.assign id name) = s.perform (s.assigning id name v) fun _ => v := by
  obtain ⟨find, hassigning, hfind⟩ := s.assigning_eq id name v
  rw [hassigning, perform_attempt, hfind, valueStep]
  cases s.holder? id name with
  | none => rfl
  | some f => rfl

end Operations

end State

end Wandika
