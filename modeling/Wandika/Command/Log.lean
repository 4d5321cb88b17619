import Wandika.Report
import Wandika.Text.Quoted

/-!
# The debug log

One line per entry: the time, the level, the message and the details, with tabs between them.

* `Clock`: the texts of the time and of the time that passed;
* `LogEntry.line`: the line of an entry;
* `stderrText`: problems, warnings and log entries as they are written.
-/

namespace Wandika

/-- The texts for the time of an entry and for the time that a pass took. -/
structure Clock where
  time : String
  elapsed : String

namespace LogEntry

/-- How a character is written in a detail. -/
def escapeChar (c : Char) : List Char :=
  if c = '"' then ['\\', '"']
  else if c = '\\' then ['\\', '\\']
  else if c = '\n' then ['\\', 'n']
  else if c = '\r' then ['\\', 'r']
  else if c = '\t' then ['\\', 't']
  else if c.toNat < 0x20 then '\\' :: 'u' :: Text.hex 4 c.toNat
  else [c]

/-- A text as a detail. -/
def textDetail (s : String) : String :=
  String.ofList ('"' :: (s.toList.flatMap escapeChar ++ ['"']))

/-- A truth value as a detail. -/
def boolDetail (b : Bool) : String :=
  if b then "true" else "false"

/-- The message of an entry. -/
def message : LogEntry → String
  | .file _ _ => "running file"
  | .scanned _ => "scanned"
  | .parseFailed => "parse failed"
  | .parsed _ _ => "parsed"
  | .resolved _ => "resolved"
  | .interpreted _ => "interpreted"

/-- The details of an entry, in order. -/
def details (clock : Clock) : LogEntry → List (String × String)
  | .file path bytes => [("path", textDetail path), ("bytes", toString bytes)]
  | .scanned tokens => [("tokens", toString tokens), ("elapsed", textDetail clock.elapsed)]
  | .parseFailed => [("elapsed", textDetail clock.elapsed)]
  | .parsed statements nodes =>
      [("statements", toString statements), ("nodes", toString nodes),
       ("elapsed", textDetail clock.elapsed)]
  | .resolved failed => [("failed", boolDetail failed), ("elapsed", textDetail clock.elapsed)]
  | .interpreted failed => [("failed", boolDetail failed), ("elapsed", textDetail clock.elapsed)]

/-- The line of an entry. -/
def line (clock : Clock) (e : LogEntry) : String :=
  let parts := (e.details clock).map fun (name, value) => textDetail name ++ ": " ++ value
  clock.time ++ "\tDEBUG\t" ++ e.message ++ "\t\x7b" ++ String.intercalate ", " parts ++ "\x7d\n"

end LogEntry

/-- What is written about diagnostics: warnings only if they are wanted, and log entries only if
there is a clock. -/
def stderrText (warnings : Bool) (clock? : Option Clock) (ds : List Diagnostic) : String :=
  String.join (ds.map fun d =>
    match d with
    | .problem _ => d.line
    | .warning _ => if warnings then d.line else ""
    | .log entry => match clock? with
      | some clock => entry.line clock
      | none => "")

end Wandika
