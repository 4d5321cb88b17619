import Wandika.Frames
import Wandika.Machine.Error

/-!
# Variables

Reading and changing a variable, by name or by distance. A variable that is not there is undefined:
the error names it, and the frames stay as they are.

* `Frames.attempt`: an operation on frames that may not find its variable;
* `Frames.get`, `Frames.assign`: by name, from a frame outwards;
* `Frames.getAt`, `Frames.assignAt`: in the frame that many steps out. A negative distance counts
  as none.
-/

namespace Wandika

namespace Frames

variable {α β : Type}

/-- Does what was found for a variable, or raises the error that it is undefined. -/
def attempt (name : Token) (find : Frames α → Option (β × Frames α)) :
    EStateM RuntimeError (Frames α) β := fun fs =>
  match find fs with
  | some (result, changed) => .ok result changed
  | none => .error ⟨name, .undefinedVariable name.lexeme⟩ fs

/-- Reads a variable in the nearest frame that binds it. -/
def get (id : FrameId) (name : Token) : EStateM RuntimeError (Frames α) α :=
  attempt name fun fs => (fs.get? id name.lexeme).map fun value => (value, fs)

/-- Changes a variable in the nearest frame that binds it. -/
def assign (id : FrameId) (name : Token) (value : α) : EStateM RuntimeError (Frames α) Unit :=
  attempt name fun fs => (fs.assign? id name.lexeme value).map fun changed => ((), changed)

/-- Reads a variable in the frame that many steps out. -/
def getAt (id : FrameId) (distance : Int) (name : Token) : EStateM RuntimeError (Frames α) α :=
  attempt name fun fs => (fs.getAt? id distance.toNat name.lexeme).map fun value => (value, fs)

/-- Changes a variable in the frame that many steps out. -/
def assignAt (id : FrameId) (distance : Int) (name : Token) (value : α) :
    EStateM RuntimeError (Frames α) Unit :=
  attempt name fun fs =>
    (fs.assignAt? id distance.toNat name.lexeme value).map fun changed => ((), changed)

end Frames

end Wandika
