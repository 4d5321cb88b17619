import Wandika.Scope
import Wandika.Token.Lexer
import Wandika.Tree.Parser

/-!
# Reports

Every pass hands what it finds to one report. The report keeps two flags, one for errors found
before running and one for errors found while running, and writes one line per diagnostic.

* `Problem`: an error with its place, `Problem.text` the line that is written for it;
* `Flags`: which sorts of errors were reported since the last reset;
* `Diagnostic`: a problem, a warning or an entry of the debug log.
-/

namespace Wandika

/-- An error as it is reported: the pass that found it, its place and its message. -/
inductive Problem
  | scan (pos : Position) (message : String)
  | parse (token : Option Token) (message : String)
  | resolve (token : Option Token) (message : String)
  | runtime (token : Option Token) (message : String)
  | plain (message : String)

/-- A message with the place it belongs to. -/
def Position.locate (p : Position) (message : String) : String :=
  "Error: " ++ p.render ++ ": " ++ message

/-- A message with the place of a token; without a token it stands alone. -/
def locateAt (token : Option Token) (message : String) : String :=
  match token with
  | none => message
  | some t => t.pos.locate message

namespace Problem

/-- The token a problem was found at. -/
def token? : Problem → Option Token
  | .parse t _ | .resolve t _ | .runtime t _ => t
  | _ => none

/-- The line that is written for a problem. -/
def text : Problem → String
  | .scan p m => p.locate m
  | .parse t m | .resolve t m | .runtime t m => locateAt t m
  | .plain m => m

/-- Whether a problem was found while running. -/
def isRuntime : Problem → Bool
  | .runtime _ _ => true
  | _ => false

end Problem

/-- A scan error as a problem. -/
def ScanError.problem (e : ScanError) : Problem :=
  .scan e.pos e.cause.message

/-- A parse error as a problem. -/
def ParseError.problem (e : ParseError) : Problem :=
  .parse e.token e.cause.message

/-- A scope error as a problem. -/
def ScopeError.problem (e : ScopeError) : Problem :=
  .resolve e.token e.cause.message

/-- Which sorts of errors were reported since the last reset. -/
structure Flags where
  error : Bool := false
  runtimeError : Bool := false
  deriving DecidableEq, Inhabited

namespace Flags

/-- The flags after one more problem. -/
def record (f : Flags) (p : Problem) : Flags :=
  if p.isRuntime then { f with runtimeError := true } else { f with error := true }

/-- The flags after several problems. -/
def recordAll (f : Flags) (ps : List Problem) : Flags :=
  ps.foldl record f

@[simp] theorem recordAll_nil (f : Flags) : f.recordAll [] = f := rfl

@[simp] theorem recordAll_cons (f : Flags) (p : Problem) (ps : List Problem) :
    f.recordAll (p :: ps) = (f.record p).recordAll ps := rfl

end Flags

/-- An entry of the debug log: one per pass, and one for the file that is run. -/
inductive LogEntry
  | file (path : String) (bytes : Nat)
  | scanned (tokens : Nat)
  | parseFailed
  | parsed (statements nodes : Nat)
  | resolved (failed : Bool)
  | interpreted (failed : Bool)
  deriving DecidableEq

/-- What a pass tells the user. -/
inductive Diagnostic
  | problem (p : Problem)
  | warning (message : String)
  | log (entry : LogEntry)

namespace Diagnostic

/-- The problem of a diagnostic, if it is one. -/
def problem? : Diagnostic → Option Problem
  | .problem p => some p
  | _ => none

/-- The message of a warning. -/
def warning? : Diagnostic → Option String
  | .warning m => some m
  | _ => none

/-- The line of a problem or a warning. Log entries have a form of their own. -/
def line : Diagnostic → String
  | .problem p => p.text ++ "\n"
  | .warning m => "Warning: " ++ m ++ "\n"
  | .log _ => ""

end Diagnostic

/-- The problems among diagnostics, in order. -/
def problems (ds : List Diagnostic) : List Problem :=
  ds.filterMap Diagnostic.problem?

/-- The warnings among diagnostics, in order. -/
def warnings (ds : List Diagnostic) : List String :=
  ds.filterMap Diagnostic.warning?

end Wandika
