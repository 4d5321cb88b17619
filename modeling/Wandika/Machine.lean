import Wandika.Machine.Operators
import Wandika.Machine.Store

/-!
# The machine

Programs are run one small step at a time. A state has a control, which is the work at hand, and a
stack of the work that waits for it. Registers name the current frame, the current table and the
number of calls in progress; whatever changes them leaves a mark on the stack that restores them,
both when a value or completion passes it and when an error does.

* `Mode`: whether values of expression statements are echoed, and the limit on nested calls;
* `State`, `step`, `run`: states and the transition between them; a halted state stays fixed;
* `State.start`: a program at its beginning.
-/

namespace Wandika

/-- How programs are run: whether the values of expression statements are echoed, and how many
calls may be in progress at once. -/
structure Mode where
  echo : Bool := false
  maxDepth : Option Nat := some 10000

/-- A text written by a program. -/
inductive Output
  | printed (text : String)
  | echoed (text : String)
  deriving DecidableEq

/-- The line that is written. -/
def Output.line : Output → String
  | .printed text => text ++ "\n"
  | .echoed text => text ++ "\n"

/-- The current frame, the current table and the number of calls in progress. -/
structure Registers where
  frame : FrameId
  locals : Locals
  depth : Nat

/-- How a statement ends: the next one follows, or the enclosing call returns. -/
inductive Completion
  | next
  | returned (value : Value)

/-- The work at hand: an expression or a statement to be run, or the outcome of one. -/
inductive Control
  | eval (e : Expr)
  | exec (s : Stmt)
  | value (v : Value)
  | done (c : Completion)
  | raise (e : RuntimeError)

/-- Work that waits for an outcome. -/
inductive Pending
  | assign (id : Int) (name : Token)
  | rightOperand (op : Token) (rhs : Expr)
  | binary (op : Token) (lhs : Value)
  | callee (paren : Option Token) (args : List Expr)
  | argument (paren : Option Token) (callee : Value) (before : List Value) (after : List Expr)
  | property (name : Token)
  | logical (op : Token) (rhs : Expr)
  | fieldOwner (name : Token) (value : Expr)
  | fieldValue (name : Token) (owner : Object)
  | choose (yes : Expr) (no : Option Expr)
  | unary (op : Token)
  | discard (quiet : Bool)
  | branch (yes : Stmt) (no : Option Stmt)
  | print
  | ret
  | varDecl (name : Token)
  | loopCondition (cond : Expr) (body : Stmt)
  | loopBody (cond : Expr) (body : Stmt)
  | sequence (rest : List Stmt)
  | leaveBlock (frame : FrameId)
  | leaveCall (registers : Registers)

/-- A state of the machine. The output is kept with the latest text first. -/
structure State where
  control : Control
  stack : List Pending
  registers : Registers
  store : Store
  output : List Output := []

namespace State

/-- Goes on with another control. -/
def goto (s : State) (control : Control) : State :=
  { s with control }

/-- Goes on with another control, and leaves work for later. -/
def push (s : State) (control : Control) (k : Pending) : State :=
  { s with control, stack := k :: s.stack }

/-- Raises an error. -/
def fail (s : State) (token : Option Token) (cause : RuntimeCause) : State :=
  s.goto (.raise ⟨token, cause⟩)

/-- Goes on with a value, or raises an error. -/
def yield (s : State) : Except RuntimeError Value → State
  | .ok v => s.goto (.value v)
  | .error e => s.goto (.raise e)

/-- Writes a text. -/
def write (s : State) (o : Output) : State :=
  { s with output := o :: s.output }

/-- Binds a name in the current frame. -/
def define (s : State) (name : Token) (v : Value) : State :=
  { s with store := s.store.define s.registers.frame name.lexeme v }

/-- The frame that holds a variable: by distance if its node has one, else the global frame, and
none if the variable is not bound there. -/
def holder? (s : State) (id : Int) (name : Token) : Option FrameId :=
  match s.registers.locals.distance? id with
  | some d => s.store.frames.holderAt? s.registers.frame d name.lexeme
  | none => s.store.frames.holder? globalFrame name.lexeme

/-- The value of a variable. -/
def valueOf? (s : State) (id : Int) (name : Token) : Option Value :=
  (s.holder? id name).bind fun frame => s.store.frames.lookup frame name.lexeme

/-! ### Calls -/

/-- Whether no further call may begin. -/
def atLimit (mode : Mode) (s : State) : Bool :=
  match mode.maxDepth with
  | some limit => limit ≤ s.registers.depth
  | none => false

/-- The bindings of a call: each parameter is bound to its argument. -/
def bindParams (params : List Token) (args : List Value) : Bindings Value :=
  (params.zip args).foldl (fun bs (p, v) => Bindings.put bs p.lexeme v) []

/-- Begins a call: the body runs in a new frame, which lies inside the frame that the function was
declared in. -/
def enter (mode : Mode) (s : State) (paren : Option Token) (f : Closure) (args : List Value) :
    State :=
  if s.atLimit mode then s.fail paren .stackOverflow
  else
    let frame : Frame Value := ⟨some f.frame, bindParams f.decl.params args⟩
    { s with
      control := .done .next
      stack := .sequence f.decl.body :: .leaveCall s.registers :: s.stack
      registers := ⟨s.store.frames.size, f.locals, s.registers.depth + 1⟩
      store := s.store.pushFrame frame }

/-- Makes an object of a class. This counts as a call that ends at once. -/
def construct (mode : Mode) (s : State) (paren : Option Token) (c : Class) : State :=
  if s.atLimit mode then s.fail paren .stackOverflow
  else
    let (o, store) := s.store.newObject c
    { s with control := .value (.object o), store }

/-- Calls a value with arguments. -/
def call (mode : Mode) (s : State) (paren : Option Token) (callee : Value) (args : List Value) :
    State :=
  match callee with
  | .overloads o =>
      match o.select? args.length with
      | some f => s.enter mode paren f args
      | none => s.fail paren (.noOverload o.name args.length)
  | .function f =>
      if args.length = f.arity then s.enter mode paren f args
      else s.fail paren (.wrongCount f.arity args.length)
  | .datum (.cls c) =>
      if args.length = 0 then s.construct mode paren c
      else s.fail paren (.wrongCount 0 args.length)
  | _ => s.fail paren .notCallable

/-! ### Steps -/

/-- Begins an expression. -/
def evalStep (s : State) : Expr → State
  | .assign id name value => s.push (.eval value) (.assign id name)
  | .binary op lhs rhs => s.push (.eval lhs) (.rightOperand op rhs)
  | .call callee paren args => s.push (.eval callee) (.callee paren args)
  | .get object name => s.push (.eval object) (.property name)
  | .group inner => s.goto (.eval inner)
  | .literal .absent => s.goto (.value .nil)
  | .literal d => s.goto (.value (.datum d))
  | .logical op lhs rhs => s.push (.eval lhs) (.logical op rhs)
  | .set object name value => s.push (.eval object) (.fieldOwner name value)
  | .ternary cond _ yes no => s.push (.eval cond) (.choose yes no)
  | .unary op operand => s.push (.eval operand) (.unary op)
  | .variable id name =>
      match s.valueOf? id name with
      | some v => s.goto (.value v)
      | none => s.fail name (.undefinedVariable name.lexeme)

/-- Whether the value of an expression statement is never echoed: assignments are not. -/
def isQuiet : Expr → Bool
  | .assign _ _ _ => true
  | .set _ _ _ => true
  | _ => false

/-- Begins a statement. -/
def execStep (s : State) : Stmt → State
  | .block body =>
      { s with
        control := .done .next
        stack := .sequence body :: .leaveBlock s.registers.frame :: s.stack
        registers := { s.registers with frame := s.store.frames.size }
        store := s.store.pushFrame { enclosing := some s.registers.frame } }
  | .classDecl name _ =>
      { s with
        control := .done .next
        store := s.store.declareClass s.registers.frame name.lexeme }
  | .expr value => s.push (.eval value) (.discard (isQuiet value))
  | .function decl =>
      { s with
        control := .done .next
        store := s.store.declareFunction s.registers.frame decl s.registers.locals }
  | .branch cond yes no => s.push (.eval cond) (.branch yes no)
  | .print value => s.push (.eval value) .print
  | .ret _ none => s.goto (.done (.returned .nil))
  | .ret _ (some value) => s.push (.eval value) .ret
  | .varDecl name none => (s.define name .nil).goto (.done .next)
  | .varDecl name (some init) => s.push (.eval init) (.varDecl name)
  | .loop cond body => s.push (.eval cond) (.loopCondition cond body)

/-- Hands a value to the work that waits for it. -/
def valueStep (mode : Mode) (s : State) (v : Value) : Pending → State
  | .assign id name =>
      match s.holder? id name with
      | some frame => { s with control := .value v, store := s.store.define frame name.lexeme v }
      | none => s.fail name (.undefinedVariable name.lexeme)
  | .rightOperand op rhs => s.push (.eval rhs) (.binary op v)
  | .binary op lhs => s.yield (applyBinary op lhs v)
  | .callee paren [] => s.call mode paren v []
  | .callee paren (arg :: args) => s.push (.eval arg) (.argument paren v [] args)
  | .argument paren callee before [] => s.call mode paren callee (before ++ [v])
  | .argument paren callee before (arg :: args) =>
      s.push (.eval arg) (.argument paren callee (before ++ [v]) args)
  | .property name =>
      match v with
      | .object o =>
          match s.store.field? o name.lexeme with
          | some x => s.goto (.value x)
          | none => s.fail name (.undefinedProperty name.lexeme)
      | _ => s.fail name .noProperties
  | .logical op rhs =>
      match decides op v with
      | .ok true => s.goto (.value v)
      | .ok false => s.goto (.eval rhs)
      | .error e => s.goto (.raise e)
  | .fieldOwner name value =>
      match v with
      | .object o => s.push (.eval value) (.fieldValue name o)
      | _ => s.fail name .noFields
  | .fieldValue name owner =>
      { s with control := .value v, store := s.store.setField owner name.lexeme v }
  | .choose yes no =>
      if v.isTruthy then s.goto (.eval yes)
      else
        match no with
        | some e => s.goto (.eval e)
        | none => s.goto (.value .nil)
  | .unary op => s.yield (applyUnary op v)
  | .discard quiet =>
      if mode.echo && !quiet then (s.write (.echoed v.render)).goto (.done .next)
      else s.goto (.done .next)
  | .branch yes no =>
      if v.isTruthy then s.goto (.exec yes)
      else
        match no with
        | some stmt => s.goto (.exec stmt)
        | none => s.goto (.done .next)
  | .print => (s.write (.printed v.render)).goto (.done .next)
  | .ret => s.goto (.done (.returned v))
  | .varDecl name => (s.define name v).goto (.done .next)
  | .loopCondition cond body =>
      if v.isTruthy then s.push (.exec body) (.loopBody cond body) else s.goto (.done .next)
  -- statements hand on completions, never values
  | k@(.loopBody _ _) | k@(.sequence _) | k@(.leaveBlock _) | k@(.leaveCall _) =>
      s.push (.value v) k

/-- Hands a completion to the work that waits for it. -/
def doneStep (s : State) (c : Completion) : Pending → State
  | .loopBody cond body =>
      match c with
      | .next => s.push (.eval cond) (.loopCondition cond body)
      | .returned _ => s.goto (.done c)
  | .sequence rest =>
      match c, rest with
      | .next, stmt :: rest => s.push (.exec stmt) (.sequence rest)
      | c, _ => s.goto (.done c)
  | .leaveBlock frame => { s with control := .done c, registers := { s.registers with frame } }
  | .leaveCall registers =>
      match c with
      | .next => { s with control := .value .nil, registers }
      | .returned v => { s with control := .value v, registers }
  -- expressions hand on values, never completions
  | k => s.push (.done c) k

/-- Lets an error pass the work that waits, which is dropped. -/
def raiseStep (s : State) (e : RuntimeError) : Pending → State
  | .leaveBlock frame => { s with control := .raise e, registers := { s.registers with frame } }
  | .leaveCall registers => { s with control := .raise e, registers }
  | _ => s.goto (.raise e)

/-- One step. A state with an outcome and nothing that waits for it stays fixed. -/
def step (mode : Mode) (s : State) : State :=
  match s.control, s.stack with
  | .eval e, _ => s.evalStep e
  | .exec stmt, _ => s.execStep stmt
  | .value v, k :: stack => { s with stack }.valueStep mode v k
  | .done c, k :: stack => { s with stack }.doneStep c k
  | .raise e, k :: stack => { s with stack }.raiseStep e k
  | _, [] => s

/-- Whether the control is an outcome and nothing waits for it. -/
def halted (s : State) : Bool :=
  match s.control, s.stack with
  | .eval _, _ => false
  | .exec _, _ => false
  | _, [] => true
  | _, _ => false

/-- Steps until the state is halted, at most `fuel` times. -/
def run (mode : Mode) : (fuel : Nat) → State → Option State
  | 0, s => if s.halted then some s else none
  | fuel + 1, s => if s.halted then some s else run mode fuel (s.step mode)

/-- The error that a halted state ended with. -/
def error? (s : State) : Option RuntimeError :=
  match s.control with
  | .raise e => some e
  | _ => none

/-- The beginning of a program: no call is in progress, and the current frame is the global one. -/
def start (store : Store) (stmts : List Stmt) (locals : Locals) : State where
  control := .done .next
  stack := [.sequence stmts]
  registers := ⟨globalFrame, locals, 0⟩
  store := store

theorem step_of_halted {mode : Mode} {s : State} (h : s.halted = true) : s.step mode = s := by
  obtain ⟨control, stack, registers, store, output⟩ := s
  cases control <;> cases stack <;> simp_all [halted, step]

theorem run_of_halted {mode : Mode} {s : State} (h : s.halted = true) (fuel : Nat) :
    run mode fuel s = some s := by
  cases fuel <;> simp [run, h]

end State

end Wandika
