import Wandika.Bindings
import Wandika.Tree

/-!
# Scopes

Before a program runs, every variable node is told how many frames lie between the frame it is
evaluated in and the frame that holds its binding. Names that are declared in no enclosing block or
function are global and are looked up by name.

* `Locals`: the table of distances, indexed by node number;
* `Scope`: the names of one block or function, each with whether its initialiser is done;
* `ScopeCause`, `ScopeError`: what the analysis rejects;
* `Resolver`: the state of the analysis, and `resolve`, which runs it on a program.

The analysis walks the tree once and stops at the first error. Scopes are opened and closed in
pairs, also when it stops.
-/

namespace Wandika

/-- The distances of variable nodes; a negative entry stands for a global variable. -/
abbrev Locals := Array Int

/-- The entry of global variables. -/
def globalDistance : Int := -1

/-- The number of frames between a node and its binding, none for a global variable. -/
def Locals.distance? (locals : Locals) (id : Int) : Option Nat :=
  if id < 0 then none
  else
    match locals[id.toNat]? with
    | some d => if d < 0 then none else some d.toNat
    | none => none

/-- Sets the entry of a node. The table grows for numbers that it does not have yet. -/
def Locals.record (locals : Locals) (id : Int) (distance : Nat) : Locals :=
  if id < 0 then locals
  else
    let grown := locals ++ Array.replicate (id.toNat + 1 - locals.size) globalDistance
    grown.setIfInBounds id.toNat distance

/-- A table of global entries only. -/
def Locals.blank (nodes : Nat) : Locals :=
  Array.replicate nodes globalDistance

/-- The names declared so far in one block or function, each with whether it is ready to be
read. -/
abbrev Scope := Bindings Bool

/-- What the analysis rejects. -/
inductive ScopeCause
  | topLevelReturn
  | redeclared
  | ownInitializer
  deriving DecidableEq

/-- The wording of a cause. -/
def ScopeCause.message : ScopeCause → String
  | .topLevelReturn => "Can't return from top-level code."
  | .redeclared => "Already has a variable with this name in this scope."
  | .ownInitializer => "Can't read local variable in its own initializer."

/-- A cause and the token it was found at. -/
structure ScopeError where
  token : Option Token
  cause : ScopeCause

/-- The kind of function body that the analysis is in. -/
inductive Region
  | none
  | function
  | method
  deriving DecidableEq

/-- The state of the analysis: the open scopes from the innermost outwards, the table, the kind of
the enclosing function, and the warnings so far, the latest first. -/
structure Resolver where
  scopes : List Scope := []
  locals : Locals := #[]
  region : Region := .none
  warnings : List String := []

/-- A step of the analysis. It keeps its state when it fails. -/
abbrev Resolve := EStateM ScopeError Resolver Unit

namespace Resolver

/-- Changes the innermost scope, if one is open. -/
def put (r : Resolver) (name : String) (ready : Bool) : Resolver :=
  match r.scopes with
  | [] => r
  | scope :: rest => { r with scopes := Bindings.put scope name ready :: rest }

/-- What the innermost scope knows about a name. -/
def innermost? (r : Resolver) (name : String) : Option Bool :=
  match r.scopes with
  | [] => none
  | scope :: _ => Bindings.get? scope name

/-- How many scopes out the nearest declaration of a name lies. -/
def depth? (scopes : List Scope) (name : String) : Option Nat :=
  scopes.findIdx? (Bindings.has · name)

/-- Enters the distance of a node into the table, unless its name is global. -/
def locate (r : Resolver) (id : Int) (name : String) : Resolver :=
  match depth? r.scopes name with
  | some d => { r with locals := r.locals.record id d }
  | none => r

end Resolver

namespace Resolve

/-- Changes the state. -/
def update (f : Resolver → Resolver) : Resolve :=
  fun r => .ok () (f r)

/-- Enters a name that is not ready to be read. -/
def declare (name : Token) : Resolve :=
  update (·.put name.lexeme false)

/-- Makes a name ready to be read. -/
def define (name : Token) : Resolve :=
  update (·.put name.lexeme true)

/-- Enters names that are ready at once. -/
def defineAll (names : List Token) : Resolve :=
  update fun r => names.foldl (fun r name => (r.put name.lexeme false).put name.lexeme true) r

/-- Runs a step in a new innermost scope, which is closed however the step ends. -/
def inScope (act : Resolve) : Resolve := fun r =>
  match act { r with scopes := [] :: r.scopes } with
  | .ok _ r' => .ok () { r' with scopes := r'.scopes.tail }
  | .error e r' => .error e { r' with scopes := r'.scopes.tail }

/-- Runs a step inside a function body, after which the enclosing kind of body is restored. -/
def inRegion (region : Region) (act : Resolve) : Resolve := fun r =>
  match act { r with region } with
  | .ok _ r' => .ok () { r' with region := r.region }
  | .error e r' => .error e { r' with region := r.region }

/-- The warning about a condition that has no value when it is false. -/
def noElseWarning (p : Position) : String :=
  p.render ++
    ": '?:' does not have an else branch, the result is nil when the condition is false."

/-- Warns about a condition without an else branch. -/
def warnNoElse (question : Option Token) : Resolve :=
  let p := (question.map Token.pos).getD {}
  update fun r => { r with warnings := noElseWarning p :: r.warnings }

/-- A variable must not be read while the innermost scope is still initialising its name. -/
def reference (id : Int) (name : Token) : Resolve := fun r =>
  if r.innermost? name.lexeme = some false then .error ⟨name, .ownInitializer⟩ r
  else .ok () (r.locate id name.lexeme)

/-- A variable may be declared once in a block or function; global ones any number of times. -/
def checkFresh (name : Token) : Resolve := fun r =>
  if (r.innermost? name.lexeme).isSome then .error ⟨name, .redeclared⟩ r else .ok () r

/-- A return belongs into a function or method. -/
def checkReturn (keyword : Option Token) : Resolve := fun r =>
  if r.region = .none then .error ⟨keyword, .topLevelReturn⟩ r else .ok () r

mutual

/-- The analysis of an expression. The value of a property assignment comes before its object. -/
def expr : Expr → Resolve
  | .assign id name value => do
      expr value
      update (·.locate id name.lexeme)
  | .binary _ lhs rhs => do
      expr lhs
      expr rhs
  | .call callee _ args => do
      expr callee
      exprs args
  | .get object _ => expr object
  | .group inner => expr inner
  | .literal _ => pure ()
  | .logical _ lhs rhs => do
      expr lhs
      expr rhs
  | .set object _ value => do
      expr value
      expr object
  | .ternary cond question yes none => do
      expr cond
      expr yes
      warnNoElse question
  | .ternary cond _ yes (some no) => do
      expr cond
      expr yes
      expr no
  | .unary _ operand => expr operand
  | .variable id name => reference id name

/-- The analysis of several expressions, in order. -/
def exprs : List Expr → Resolve
  | [] => pure ()
  | e :: es => do
      expr e
      exprs es

end

mutual

/-- The analysis of a statement. -/
def stmt : Stmt → Resolve
  | .block body => inScope (stmts body)
  | .classDecl name methods => do
      declare name
      define name
      functions .method methods
  | .expr value => expr value
  | .function decl => do
      declare decl.name
      define decl.name
      function .function decl
  | .branch cond yes none => do
      expr cond
      stmt yes
  | .branch cond yes (some no) => do
      expr cond
      stmt yes
      stmt no
  | .print value => expr value
  | .ret keyword none => checkReturn keyword
  | .ret keyword (some value) => do
      checkReturn keyword
      expr value
  | .varDecl name none => do
      checkFresh name
      declare name
      define name
  | .varDecl name (some init) => do
      checkFresh name
      declare name
      expr init
      define name
  | .loop cond body => do
      expr cond
      stmt body

/-- The analysis of a function: one scope holds the parameters and the names of the body. -/
def function (region : Region) : FunDecl → Resolve
  | .mk _ params body =>
      inRegion region (inScope do
        defineAll params
        stmts body)

/-- The analysis of several statements, in order. -/
def stmts : List Stmt → Resolve
  | [] => pure ()
  | s :: ss => do
      stmt s
      stmts ss

/-- The analysis of several functions, in order. -/
def functions (region : Region) : List FunDecl → Resolve
  | [] => pure ()
  | f :: fs => do
      function region f
      functions region fs

end

end Resolve

/-- What the analysis of a program gives: the table, also when it stopped early, the warnings and
the error it stopped at. -/
structure Resolution where
  locals : Locals
  warnings : List String
  error? : Option ScopeError

/-- Analyses a program. The scopes and the kind of body that the state had are dropped
afterwards. -/
def Resolver.resolve (r : Resolver) (p : Program) : Resolution × Resolver :=
  let start := { r with locals := Locals.blank p.nodes, warnings := [] }
  match Resolve.stmts p.stmts start with
  | .ok _ r' => (⟨r'.locals, r'.warnings.reverse, none⟩, { locals := r'.locals })
  | .error e r' => (⟨r'.locals, r'.warnings.reverse, some e⟩, { locals := r'.locals })

/-- Analyses a program from scratch. -/
def Program.resolve (p : Program) : Resolution :=
  (Resolver.resolve {} p).1

end Wandika
