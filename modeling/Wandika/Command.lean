import Wandika.Command.Options
import Wandika.Command.Prompt
import Wandika.Settings.Load

/-!
# The command

Reads options and settings, and then runs a script or lines of input.

* `Status`: how a command ends, `Status.code` its exit status;
* `runScript`: a script on a fresh session;
* `Command.run`: the whole command, on any host.
-/

namespace Wandika

/-- How a command ends. -/
inductive Status
  | ok
  | ioError
  | usage
  | dataError
  | software
  deriving DecidableEq

/-- The exit status of a command. -/
def Status.code : Status → Nat
  | .ok => 0
  | .ioError => 1
  | .usage => 64
  | .dataError => 65
  | .software => 70

/-- How a script ends, by what was reported about it. -/
def Status.ofFlags (f : Flags) : Status :=
  if f.error then .dataError else if f.runtimeError then .software else .ok

/-- The session that settings ask for. -/
def Settings.session (s : Settings) (echo : Bool) : Session :=
  { mode := { echo }, printTree := s.printTree }

/-- Runs the bytes of a script on a fresh session. It gives nothing if the run takes more than
`fuel` steps. -/
def runScript (fuel : Nat) (settings : Settings) (bytes : List UInt8) :
    Option (UnitReport × Status) :=
  ((settings.session false).exec fuel (Text.Utf8.decode bytes)).map fun (report, session) =>
    (report, Status.ofFlags session.flags)

namespace Command

variable {m : Type → Type} [Monad m] [Host m]

/-- What a command is given beside its arguments: a bound on the steps of each unit, and the texts
of times in the log. -/
structure Context where
  fuel : Nat
  clock : Clock

/-- The clock of the log, if one is kept. -/
def Context.clock? (c : Context) (settings : Settings) : Option Clock :=
  if settings.debug then some c.clock else none

/-- Writes what was reported. -/
def report (c : Context) (settings : Settings) (ds : List Diagnostic) : m Unit :=
  Host.err (stderrText settings.warnings (c.clock? settings) ds)

/-- Writes a line of error text and ends. -/
def failWith (text : String) (status : Status) : m (Option Status) := do
  Host.err (text ++ "\n")
  return some status

/-- Runs the script at a path. -/
def script (c : Context) (settings : Settings) (path : String) : m (Option Status) := do
  match ← Host.readFile path with
  | .error e => failWith e.message .ioError
  | .ok bytes =>
      report c settings [.log (.file path bytes.length)]
      match runScript c.fuel settings bytes with
      | none => return none
      | some (r, status) =>
          Host.out r.stdout
          report c settings r.diagnostics
          return some status

/-- Reads and runs lines until there are no more, at most `count` of them. It gives the history, or
nothing if a line did not finish. -/
def lines (c : Context) (settings : Settings) :
    (count : Nat) → Session → History → m (Option History)
  | 0, _, _ => return none
  | count + 1, session, history => do
      Host.out settings.prompt
      match ← Host.readLine with
      | none => return some history
      | some line =>
          match Input.ofLine line with
          | .nothing => lines c settings count session history
          | .quit => return some history
          | .source text =>
              match session.exec c.fuel text.toList with
              | none => return none
              | some (r, session) =>
                  Host.out r.stdout
                  report c settings r.diagnostics
                  lines c settings count session.reset (history.add text)

/-- The history that a file holds; a file that cannot be read holds none. -/
def loadHistory (path : String) : m History := do
  if path = "" then return []
  else
    match ← Host.readFile path with
    | .ok bytes => return History.ofBytes bytes
    | .error _ => return []

/-- Writes the history, if it is kept. -/
def saveHistory (path : String) (history : History) : m (Option Status) := do
  if path = "" then return some .ok
  else
    match ← Host.writeFile path history.toBytes with
    | .ok () => return some .ok
    | .error e => failWith ("repl: write history: " ++ e.message) .ioError

/-- Runs lines of input. -/
def prompt (c : Context) (settings : Settings) : m (Option Status) := do
  let history ← loadHistory settings.history
  if !Prompt.isValid settings.prompt then failWith "repl: invalid prompt" .ioError
  else
    match ← lines c settings c.fuel (settings.session true) history with
    | none => return none
    | some history => saveHistory settings.history history

/-- The settings that a path names, or those of the working directory. -/
def loadSettings (path : String) : m (Except SettingsError Settings) :=
  if path = "" then Settings.discover "." else Settings.load path

/-- Settings changed by options. -/
def configure (settings : Settings) (o : Options) : Settings :=
  { settings with
    printTree := settings.printTree || o.printTree
    warnings := settings.warnings && !o.noWarn
    debug := settings.debug || o.debug }

/-- Runs the command with its arguments. It gives nothing if a program did not finish. -/
def run (c : Context) (args : List String) : m (Option Status) := do
  match Options.read args with
  | .error .help =>
      Host.err usage
      return some .ok
  | .error e =>
      Host.err (((e.message?.map (· ++ "\n")).getD "") ++ usage)
      return some .usage
  | .ok o =>
      if 1 < o.rest.length then
        Host.err usage
        return some .usage
      else
        match ← loadSettings o.config with
        | .error e => failWith e.message .ioError
        | .ok settings =>
            let settings := configure settings o
            match o.rest with
            | [] => prompt c settings
            | path :: _ => script c settings path

end Command

end Wandika
