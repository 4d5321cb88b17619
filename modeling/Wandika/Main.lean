import Wandika.Command

/-!
# The executable

The command on the real file system, standard input and standard output.
-/

namespace Wandika

/-- The cause of a failed operation. -/
def fileCause : IO.Error → FileCause
  | .noFileOrDirectory _ _ _ => .notFound
  | .inappropriateType (some _) _ details | .inappropriateType none _ details =>
      if details = "Is a directory" then .isDirectory else .notDirectory
  | .resourceExhausted _ _ _ => .noSpace
  | e => .other (toString e)

/-- The step at which an operation failed: a directory is opened but not read, and a full device
is opened but not written. -/
def failedStep (operation : String) : FileCause → String
  | .isDirectory => if operation = "stat" then "stat" else "read"
  | .noSpace => "write"
  | _ => if operation = "stat" then "stat" else "open"

/-- Runs an operation on a path and names it in the error. -/
def attempt {α : Type} (operation path : String) (act : IO α) : IO (Except FileError α) := do
  match ← act.toBaseIO with
  | .ok a => return .ok a
  | .error e =>
      let cause := fileCause e
      return .error ⟨failedStep operation cause, path, cause⟩

/-- A line without its end. -/
def withoutEnd (line : String) : String :=
  let cs := line.toList
  let cs := if cs.getLast? = some '\n' then cs.dropLast else cs
  String.ofList (if cs.getLast? = some '\r' then cs.dropLast else cs)

instance : Host IO where
  readFile path := attempt "read" path do
    return (← IO.FS.readBinFile path).toList
  stat path := attempt "stat" path do
    let _ ← IO.FS.Handle.mk path .read
    return ()
  writeFile path bytes := attempt "write" path do
    IO.FS.writeBinFile path ⟨bytes.toArray⟩
  readLine := do
    let line ← (← IO.getStdin).getLine
    return if line.isEmpty then none else some (Text.Utf8.encode (withoutEnd line))
  out text := do
    let stream ← IO.getStdout
    stream.putStr text
    stream.flush
  err text := do
    (← IO.getStderr).putStr text

end Wandika

/-- Runs the command with its arguments. -/
def main (args : List String) : IO UInt32 := do
  let now ← IO.monoMsNow
  let context : Wandika.Command.Context :=
    { fuel := Nat.pow 2 62, clock := ⟨toString now ++ "ms", "0s"⟩ }
  match ← Wandika.Command.run context args with
  | some status => return status.code.toUInt32
  | none =>
      IO.eprintln "the program did not finish"
      return 70
