import Wandika.Path
import Wandika.Text.Utf8

/-!
# Files

* `FileError`: an operation on a path that failed, and why;
* `Files`: a tree of files and directories, with a working directory;
* `Files.read`, `Files.stat`, `Files.write`: the operations that the program needs.

The device that accepts no bytes is part of every tree.
-/

namespace Wandika

/-- Why an operation on a path failed. -/
inductive FileCause
  | notFound
  | notDirectory
  | isDirectory
  | noSpace
  | other (text : String)
  deriving DecidableEq

/-- The wording of a cause. -/
def FileCause.message : FileCause → String
  | .notFound => "no such file or directory"
  | .notDirectory => "not a directory"
  | .isDirectory => "is a directory"
  | .noSpace => "no space left on device"
  | .other text => text

/-- An operation on a path that failed. -/
structure FileError where
  operation : String
  path : String
  cause : FileCause
  deriving DecidableEq

/-- Operation, path and cause. -/
def FileError.message (e : FileError) : String :=
  e.operation ++ " " ++ e.path ++ ": " ++ e.cause.message

/-- What stands at a place of the tree. -/
inductive Node
  | file (bytes : List UInt8)
  | directory
  | full

/-- A place: the names on the way from the working directory. Places outside it begin with `/`. -/
abbrev Place := List String

/-- A tree of files and directories, as the list of its places. -/
structure Files where
  nodes : List (Place × Node) := []

namespace Files

/-- Places that every tree has. -/
def fixed : List (Place × Node) :=
  [([], .directory), (["/"], .directory), (["/", "dev"], .directory), (["/", "tmp"], .directory),
   (["/", "dev", "full"], .full)]

/-- What stands at a place. -/
def node? (fs : Files) (place : Place) : Option Node :=
  (fs.nodes ++ fixed).lookup place

/-- Puts a node at a place. -/
def put (fs : Files) (place : Place) (node : Node) : Files :=
  ⟨(place, node) :: fs.nodes.filter (·.1 != place)⟩

/-- Makes the directories above a place. -/
def putParents (fs : Files) (place : Place) : Files :=
  (List.range place.length).foldl (fun fs n =>
    if (fs.node? (place.take n)).isSome then fs else fs.put (place.take n) .directory) fs

/-- Goes one name further from a directory. -/
def enter (fs : Files) (place : Place) (name : String) : Except FileCause Place :=
  match fs.node? place with
  | none => .error .notFound
  | some .directory =>
      if name = "" ∨ name = "." then .ok place
      else if name = ".." then .ok (if place = ["/"] then place else place.dropLast)
      else .ok (place ++ [name])
  | some _ => .error .notDirectory

/-- The place of a path. Everything on the way has to be a directory. -/
def find (fs : Files) (path : String) : Except FileCause Place :=
  if path = "" then .error .notFound
  else
    let start : Place := if Path.isRooted path then ["/"] else []
    (Path.segments path).foldlM fs.enter start

/-- The place of a path, and what stands there. -/
def resolve (fs : Files) (path : String) : Except FileCause (Place × Node) :=
  match fs.find path with
  | .error e => .error e
  | .ok place =>
      match fs.node? place with
      | some node => .ok (place, node)
      | none => .error .notFound

/-- The bytes of a file. -/
def read (fs : Files) (path : String) : Except FileError (List UInt8) :=
  match fs.resolve path with
  | .error cause => .error ⟨"open", path, cause⟩
  | .ok (_, .file bytes) => .ok bytes
  | .ok (_, .directory) => .error ⟨"read", path, .isDirectory⟩
  | .ok (_, .full) => .error ⟨"read", path, .other "no end of file"⟩

/-- Whether something stands at a path. -/
def stat (fs : Files) (path : String) : Except FileError Unit :=
  match fs.resolve path with
  | .error cause => .error ⟨"stat", path, cause⟩
  | .ok _ => .ok ()

/-- Makes a file or replaces its bytes. The directory has to exist. -/
def write (fs : Files) (path : String) (bytes : List UInt8) : Except FileError Files :=
  match fs.find path with
  | .error cause => .error ⟨"open", path, cause⟩
  | .ok place =>
      match fs.node? place with
      | some .directory => .error ⟨"open", path, .isDirectory⟩
      | some .full => if bytes = [] then .ok fs else .error ⟨"write", path, .noSpace⟩
      | some (.file _) => .ok (fs.put place (.file bytes))
      | none =>
          match fs.node? place.dropLast with
          | some .directory => .ok (fs.put place (.file bytes))
          | some _ => .error ⟨"open", path, .notDirectory⟩
          | none => .error ⟨"open", path, .notFound⟩

/-- Puts a file or, if the name ends with a slash, a directory into the tree, with the directories
above it. -/
def add (fs : Files) (name : String) (bytes : List UInt8) : Files :=
  let place := (Path.segments name).filter fun s => s != "" && s != "."
  let fs := fs.putParents place
  if name.toList.getLast? = some '/' then
    if (fs.node? place).isSome then fs else fs.put place .directory
  else fs.put place (.file bytes)

/-- The bytes at a path, if it is a file. -/
def content? (fs : Files) (path : String) : Option (List UInt8) :=
  (fs.read path).toOption

end Files

end Wandika
