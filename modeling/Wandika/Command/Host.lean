import Wandika.Files

/-!
# The outside world

What a command needs from its surroundings: files, lines of input, and two streams of output.

* `Host`: the operations, in any monad;
* `World`: a tree of files with the input still to be read and the output so far, which makes
  `StateM World` a host;
* `Lines`: how input is cut into lines.
-/

namespace Wandika

/-- The surroundings of a command. -/
class Host (m : Type → Type) where
  readFile : String → m (Except FileError (List UInt8))
  stat : String → m (Except FileError Unit)
  writeFile : String → List UInt8 → m (Except FileError Unit)
  readLine : m (Option (List UInt8))
  out : String → m Unit
  err : String → m Unit

namespace Lines

/-- The size of the buffer that lines are read through. -/
def bufferSize : Nat := 4096

/-- One line, what follows it, and whether it was cut off because it filled the buffer. A line ends
with a line feed, with or without a carriage return before it; the last one may lack it. -/
def next (bytes : List UInt8) : Option (List UInt8 × Bool × List UInt8) :=
  if bytes = [] then none
  else
    let body := (bytes.take bufferSize).takeWhile (· != 10)
    let rest := bytes.drop body.length
    if body.length = bufferSize then
      if body.getLast? = some 13 then some (body.dropLast, true, 13 :: rest)
      else some (body, true, rest)
    else
      match rest with
      | [] => some (body, false, [])
      | _ :: rest =>
          some (if body.getLast? = some 13 then body.dropLast else body, false, rest)

/-- The lines of a text, at most `count` of them, each with whether it was cut off. -/
def upTo : (count : Nat) → List UInt8 → List (List UInt8 × Bool)
  | 0, _ => []
  | count + 1, bytes =>
      match next bytes with
      | none => []
      | some (body, cut, rest) => (body, cut) :: upTo count rest

/-- All lines of a text. -/
def all (bytes : List UInt8) : List (List UInt8 × Bool) :=
  upTo bytes.length bytes

end Lines

/-- A tree of files, the input that was not read yet, and what was written. -/
structure World where
  files : Files := {}
  input : List UInt8 := []
  stdout : String := ""
  stderr : String := ""

instance : Host (StateM World) where
  readFile path := do return (← get).files.read path
  stat path := do return (← get).files.stat path
  writeFile path bytes := do
    match (← get).files.write path bytes with
    | .ok files =>
        modify fun w => { w with files }
        return .ok ()
    | .error e => return .error e
  readLine := do
    match Lines.next (← get).input with
    | none => return none
    | some (body, _, rest) =>
        modify fun w => { w with input := rest }
        return some body
  out text := modify fun w => { w with stdout := w.stdout ++ text }
  err text := modify fun w => { w with stderr := w.stderr ++ text }

end Wandika
