import Wandika.Machine
import Wandika.Tree.Printer

/-!
# Sessions

A session runs source units one after another on one store. A unit goes through four passes, and
stops after the first that reported an error: it is scanned, parsed, resolved and run. If trees are
asked for, the tree is printed instead of the last two.

* `Session`: the settings, the store and the flags;
* `UnitReport`: what one unit wrote and what was reported about it;
* `Session.exec`: one unit; `Session.reset` clears the flags.
-/

namespace Wandika

/-- The state between two units. -/
structure Session where
  mode : Mode := {}
  printTree : Bool := false
  store : Store := Store.empty
  flags : Flags := {}

/-- What one unit wrote, and what was reported about it, each in order. -/
structure UnitReport where
  tree : String := ""
  output : List Output := []
  diagnostics : List Diagnostic := []

namespace UnitReport

/-- What the unit wrote. -/
def stdout (r : UnitReport) : String :=
  r.tree ++ String.join (r.output.map Output.line)

/-- The problems that were reported. -/
def problems (r : UnitReport) : List Problem :=
  Wandika.problems r.diagnostics

/-- The warnings that were given. -/
def warnings (r : UnitReport) : List String :=
  Wandika.warnings r.diagnostics

end UnitReport

namespace Session

/-- Clears the flags. -/
def reset (s : Session) : Session :=
  { s with flags := {} }

/-- Runs a program that passed the analysis. It gives nothing if the run takes more than `fuel`
steps. -/
def interpret (fuel : Nat) (s : Session) (p : Program) (locals : Locals) :
    Option (List Output × Option RuntimeError × Session) :=
  let ⟨mode, printTree, store, flags⟩ := s
  (State.run mode fuel (State.start store p.stmts locals)).map fun final =>
    (final.output.reverse, final.error?,
      ⟨mode, printTree, final.store, flags.recordAll (final.error?.map (·.problem)).toList⟩)

/-- The last two passes on a parsed program, after the diagnostics `before`. -/
def resolveAndRun (fuel : Nat) (s : Session) (p : Program) (before : List Diagnostic) :
    Option (UnitReport × Session) :=
  let r := p.resolve
  let problem? := r.error?.map (·.problem)
  let s := { s with flags := s.flags.recordAll problem?.toList }
  let found := before ++ r.warnings.map .warning ++ (problem?.map .problem).toList
    ++ [.log (.resolved s.flags.error)]
  if s.flags.error then some ({ diagnostics := found }, s)
  else
    (s.interpret fuel p r.locals).map fun (output, error?, s) =>
      let raised := (error?.map fun e => Diagnostic.problem e.problem).toList
      ({ output, diagnostics := found ++ raised ++ [.log (.interpreted s.flags.runtimeError)] }, s)

/-- Runs one source unit. It gives nothing if running it takes more than `fuel` steps. -/
def exec (fuel : Nat) (s : Session) (source : List Char) : Option (UnitReport × Session) :=
  let scanned := Wandika.scan source
  let problems := scanned.errors.map (·.problem)
  let s := { s with flags := s.flags.recordAll problems }
  let found := problems.map .problem ++ [.log (.scanned scanned.tokens.length)]
  if s.flags.error then some ({ diagnostics := found }, s)
  else
    match (Program.parse { rest := scanned.tokens }).1 with
    | .error (.rejected e) =>
        some ({ diagnostics := found ++ [.problem e.problem, .log .parseFailed] },
          { s with flags := s.flags.record e.problem })
    | .error _ => none
    | .ok p =>
        let found := found ++ [.log (.parsed p.stmts.length p.nodes)]
        if s.printTree then some ({ tree := p.render, diagnostics := found }, s)
        else s.resolveAndRun fuel p found

end Session

end Wandika
