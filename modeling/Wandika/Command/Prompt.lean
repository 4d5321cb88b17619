import Wandika.Command.Host
import Wandika.Command.Log
import Wandika.Session
import Wandika.Settings
import Wandika.Text.Blank
import Wandika.Text.Control

/-!
# The prompt

Without a script, lines of input are run one by one on one session, and the values of expression
statements are echoed.

* `History`: the lines that were entered, the latest last;
* `Input`: what a line asks for;
* `Prompt.isValid`: whether a text can be a prompt.
-/

namespace Wandika

/-- The lines that were entered, the latest last. -/
abbrev History := List String

namespace History

/-- The most lines that are kept. -/
def limit : Nat := 1000

/-- The history cut to its latest lines. -/
def trim (h : History) : History :=
  h.drop (h.length - limit)

/-- Adds a line, unless it repeats the latest. -/
def add (h : History) (line : String) : History :=
  if h.getLast? = some line then h else trim (h ++ [line])

/-- The history in a file: its lines up to the first that is too long or not a text. -/
def ofBytes (bytes : List UInt8) : History :=
  let good := (Lines.all bytes).takeWhile fun (line, cut) => !cut && Text.Utf8.isValid line
  trim (good.map fun (line, _) => String.ofList (Text.Utf8.decode line))

/-- The history as a file, one entry per line. -/
def toBytes (h : History) : List UInt8 :=
  Text.Utf8.encode (String.join (h.map (· ++ "\n")))

end History

/-- What a line of input asks for. -/
inductive Input
  | nothing
  | quit
  | source (text : String)
  deriving DecidableEq

/-- What a line of input asks for. Blanks around it do not count. -/
def Input.ofLine (line : List UInt8) : Input :=
  let text := String.ofList (Text.trimList (Text.Utf8.decode line))
  if text = "" then .nothing else if text = ":quit" then .quit else .source text

namespace Prompt

/-- A prompt holds no control characters. -/
def isValid (prompt : String) : Bool :=
  !prompt.toList.any Text.isControl

end Prompt

end Wandika
