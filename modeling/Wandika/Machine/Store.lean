import Wandika.Value

/-!
# The store

* `Store`: the frames, the fields of every object, and the next free identity;
* `Store.newObject`, `Store.setField`, `Store.field?`: objects;
* `Store.declareClass`, `Store.declareFunction`: what declarations bind.

The first frame holds the global variables.
-/

namespace Wandika

/-- All that a program can change. -/
structure Store where
  frames : Frames Value
  objects : Array (Bindings Value) := #[]
  nextId : Nat := 0

/-- The number of the frame of the global variables. -/
def globalFrame : FrameId := 0

namespace Store

/-- A store without any binding. -/
def empty : Store where
  frames := Frames.push {} { enclosing := none }

/-- Binds a name in a frame. -/
def define (s : Store) (frame : FrameId) (name : String) (value : Value) : Store :=
  { s with frames := s.frames.define frame name value }

/-- Makes a frame. Its number is the number of frames before. -/
def pushFrame (s : Store) (frame : Frame Value) : Store :=
  { s with frames := s.frames.push frame }

/-! ### Objects -/

/-- Makes an object without fields. -/
def newObject (s : Store) (c : Class) : Object × Store :=
  (⟨s.objects.size, c⟩, { s with objects := s.objects.push [] })

/-- Reads a field. -/
def field? (s : Store) (o : Object) (name : String) : Option Value :=
  (s.objects[o.id]?).bind (Bindings.get? · name)

/-- Sets a field, which need not exist yet. -/
def setField (s : Store) (o : Object) (name : String) (value : Value) : Store :=
  { s with objects := s.objects.modify o.id (Bindings.put · name value) }

/-- Makes a class. Two classes are never equal. -/
def newClass (s : Store) (name : String) : Class × Store :=
  (⟨s.nextId, name⟩, { s with nextId := s.nextId + 1 })

/-! ### Declarations -/

/-- Binds the name of a class to a new class. -/
def declareClass (s : Store) (frame : FrameId) (name : String) : Store :=
  let (c, s) := s.newClass name
  s.define frame name (.datum (.cls c))

/-- What a function declaration binds, given what its name is bound to in the same frame: a
function that takes another number of arguments is kept beside the new one. -/
def joined (bound : Option Value) (f : Closure) (setId : Nat) : Value :=
  let name := f.decl.name.lexeme
  match bound with
  | some (.function g) =>
      if g.arity = f.arity then .function f
      else .overloads ⟨setId, name, Overloads.insert f [g]⟩
  | some (.overloads o) => .overloads ⟨setId, name, Overloads.insert f o.functions⟩
  | _ => .function f

/-- Binds the name of a function to it, or to a set of overloads with it. -/
def declareFunction (s : Store) (frame : FrameId) (decl : FunDecl) (locals : Locals) : Store :=
  let name := decl.name.lexeme
  let f : Closure := ⟨s.nextId, decl, frame, locals⟩
  let value := joined (s.frames.lookup frame name) f (s.nextId + 1)
  { s with nextId := s.nextId + 2 }.define frame name value

end Store

end Wandika
