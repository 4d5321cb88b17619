import Wandika.Bindings

/-!
# Frames

A frame holds bindings and refers to the frame that encloses it. Frames are numbered as they are
made and never go away, so that any number of functions can share one.

* `Frames`: all frames made so far;
* `Frames.define`, `Frames.lookup`: the bindings of one frame;
* `Frames.get?`, `Frames.assign?`: by name, in the nearest frame that binds it;
* `Frames.getAt?`, `Frames.assignAt?`: by distance, in the frame that many steps out.

A definition changes one name of one frame (`lookup_define`) and no chain (`enclosing?_define`).
-/

namespace Wandika

/-- The number of a frame. -/
abbrev FrameId := Nat

/-- Bindings, and the frame around them. -/
structure Frame (α : Type) where
  enclosing : Option FrameId
  bindings : Bindings α := []

/-- All frames, by number. -/
structure Frames (α : Type) where
  frames : Array (Frame α) := #[]

namespace Frames

variable {α : Type}

/-- How many frames there are. -/
def size (fs : Frames α) : Nat := fs.frames.size

/-- The frame of a number. -/
def frame? (fs : Frames α) (id : FrameId) : Option (Frame α) :=
  fs.frames[id]?

/-- Makes a frame. Its number is the size before. -/
def push (fs : Frames α) (frame : Frame α) : Frames α :=
  ⟨fs.frames.push frame⟩

/-- Binds a name in one frame. -/
def define (fs : Frames α) (id : FrameId) (name : String) (value : α) : Frames α :=
  ⟨fs.frames.modify id fun f => { f with bindings := f.bindings.put name value }⟩

/-- What a name is bound to in one frame. -/
def lookup (fs : Frames α) (id : FrameId) (name : String) : Option α :=
  (fs.frame? id).bind fun f => f.bindings.get? name

/-- The frame that encloses a frame. -/
def enclosing? (fs : Frames α) (id : FrameId) : Option FrameId :=
  (fs.frame? id).bind Frame.enclosing

/-- The nearest frame that binds a name, among the first `steps` frames going outwards. -/
def holderWithin (fs : Frames α) (name : String) : (steps : Nat) → FrameId → Option FrameId
  | 0, _ => none
  | steps + 1, id =>
      if (fs.lookup id name).isSome then some id
      else (fs.enclosing? id).bind (fs.holderWithin name steps)

/-- The nearest frame that binds a name, going outwards. Enclosing frames are older, so no more
steps are needed than there are frames. -/
def holder? (fs : Frames α) (id : FrameId) (name : String) : Option FrameId :=
  fs.holderWithin name fs.size id

/-- The frame that many steps out. -/
def ancestor? (fs : Frames α) (id : FrameId) : Nat → Option FrameId
  | 0 => some id
  | distance + 1 => (fs.enclosing? id).bind fun outer => fs.ancestor? outer distance

/-- The frame that many steps out, if it binds a name. -/
def holderAt? (fs : Frames α) (id : FrameId) (distance : Nat) (name : String) : Option FrameId :=
  (fs.ancestor? id distance).filter fun frame => (fs.lookup frame name).isSome

/-- Reads a name in the nearest frame that binds it. -/
def get? (fs : Frames α) (id : FrameId) (name : String) : Option α :=
  (fs.holder? id name).bind fun frame => fs.lookup frame name

/-- Changes a name in the nearest frame that binds it. -/
def assign? (fs : Frames α) (id : FrameId) (name : String) (value : α) : Option (Frames α) :=
  (fs.holder? id name).map fun frame => fs.define frame name value

/-- Reads a name in the frame that many steps out. -/
def getAt? (fs : Frames α) (id : FrameId) (distance : Nat) (name : String) : Option α :=
  (fs.holderAt? id distance name).bind fun frame => fs.lookup frame name

/-- Changes a name in the frame that many steps out, if it is bound there. -/
def assignAt? (fs : Frames α) (id : FrameId) (distance : Nat) (name : String) (value : α) :
    Option (Frames α) :=
  (fs.holderAt? id distance name).map fun frame => fs.define frame name value

/-! ### What a definition and a new frame change -/

@[simp] theorem size_push (fs : Frames α) (frame : Frame α) :
    (fs.push frame).size = fs.size + 1 := by
  simp [size, push]

@[simp] theorem size_define (fs : Frames α) (id : FrameId) (name : String) (value : α) :
    (fs.define id name value).size = fs.size := by
  simp [size, define]

theorem frame?_push_of_lt (fs : Frames α) (frame : Frame α) {id : FrameId} (h : id < fs.size) :
    (fs.push frame).frame? id = fs.frame? id := by
  simp only [size] at h
  simp [frame?, push, Array.getElem?_push, Nat.ne_of_lt h]

@[simp] theorem frame?_push_size (fs : Frames α) (frame : Frame α) :
    (fs.push frame).frame? fs.size = some frame := by
  simp [frame?, push, size]

theorem frame?_define (fs : Frames α) (id other : FrameId) (name : String) (value : α) :
    (fs.define id name value).frame? other =
      (fs.frame? other).map fun f =>
        if other = id then { f with bindings := f.bindings.put name value } else f := by
  by_cases h : other = id
  · simp [frame?, define, Array.getElem?_modify, h]
  · simp [frame?, define, Array.getElem?_modify, h, Ne.symm h]

/-- A definition keeps every chain of frames. -/
@[simp] theorem enclosing?_define (fs : Frames α) (id other : FrameId) (name : String)
    (value : α) : (fs.define id name value).enclosing? other = fs.enclosing? other := by
  rw [enclosing?, enclosing?, frame?_define]
  cases fs.frame? other with
  | none => rfl
  | some f => by_cases h : other = id <;> simp [h]

/-- A definition is seen in its own frame under its own name, and nowhere else. -/
theorem lookup_define (fs : Frames α) {id : FrameId} (h : id < fs.size) (other : FrameId)
    (name x : String) (value : α) :
    (fs.define id name value).lookup other x =
      if other = id ∧ x = name then some value else fs.lookup other x := by
  rw [lookup, lookup, frame?_define]
  by_cases ho : other = id
  · subst ho
    obtain ⟨f, hf⟩ : ∃ f, fs.frame? other = some f := ⟨_, Array.getElem?_eq_getElem h⟩
    simp [hf, Bindings.get?_put]
  · cases fs.frame? other <;> simp [ho]

end Frames

end Wandika
