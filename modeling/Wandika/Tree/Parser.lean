import Wandika.Tree

/-!
# From tokens to trees

A recursive-descent parser with one token of lookahead. It stops at the first token that cannot
continue a program and leaves the cursor there.

* `ParseCause`, `ParseError`: what was expected, and at which token;
* `Cursor`: the tokens that are left and the next free node number;
* `Level`: the six levels of binary operators, from the loosest to the tightest;
* `Parser.program`: the parser of a whole unit; `Program.parse` runs it on a cursor.

Every rule takes a bound on the depth of the rules below it. `Parser.depthFor` gives a bound that is
never reached, and `Failure.exhausted` is the outcome that would tell otherwise.
-/

namespace Wandika

/-- The two sorts of function declarations. -/
inductive FunKind
  | function
  | method
  deriving DecidableEq

/-- How a sort of function is named in a message. -/
def FunKind.name : FunKind → String
  | .function => "function"
  | .method => "method"

/-- The most parameters of a function, and the most arguments of a call. -/
def maxArguments : Nat := 255

/-- Why a token cannot continue a program. -/
inductive ParseCause
  | variableName
  | endOfDeclaration
  | endOfBlock
  | className
  | startOfClass
  | endOfClass
  | functionName (kind : FunKind)
  | startOfParameters (kind : FunKind)
  | parameterName
  | endOfParameters
  | startOfBody (kind : FunKind)
  | startOfIfCondition
  | endOfIfCondition
  | startOfLoopCondition (keyword : String)
  | endOfLoopCondition
  | endOfPrint
  | endOfReturn
  | endOfExpression
  | propertyName
  | endOfArguments
  | endOfGroup
  | expression
  | tooManyParameters
  | tooManyArguments
  | invalidTarget
  deriving DecidableEq

/-- The wording of a cause. -/
def ParseCause.message : ParseCause → String
  | .variableName => "Expect variable name."
  | .endOfDeclaration => "Expect ';' after variable declaration."
  | .endOfBlock => "Expect '\x7d' after block."
  | .className => "Expect class name."
  | .startOfClass => "Expect '\x7b' before class body."
  | .endOfClass => "Expect '\x7d' after class body."
  | .functionName kind => "Expect " ++ kind.name ++ " name."
  | .startOfParameters kind => "Expect '(' after " ++ kind.name ++ " name."
  | .parameterName => "Expect parameter name."
  | .endOfParameters => "Expect ')' after parameters."
  | .startOfBody kind => "Expect '\x7b' before " ++ kind.name ++ " body."
  | .startOfIfCondition => "Expect '(' after 'if'."
  | .endOfIfCondition => "Expect ')' after if condition."
  | .startOfLoopCondition keyword => "Expect '(' after '" ++ keyword ++ "'."
  | .endOfLoopCondition => "Expect ')' after condition."
  | .endOfPrint => "Expect ';' after value."
  | .endOfReturn => "Expect ';' after return value."
  | .endOfExpression => "Expect ';' after expression."
  | .propertyName => "Expect property name after '.'."
  | .endOfArguments => "Expect ')' after arguments."
  | .endOfGroup => "Expect ')' after expression."
  | .expression => "Expect expression."
  | .tooManyParameters => "Can't have more than " ++ toString maxArguments ++ " parameters."
  | .tooManyArguments => "Can't have more than " ++ toString maxArguments ++ " arguments."
  | .invalidTarget => "Invalid assignment target."

/-- A cause and the token it was found at. -/
structure ParseError where
  token : Token
  cause : ParseCause

/-- How parsing can fail: the tokens form no program, a token of a number or a string carries no
literal, or the bound on the depth of rules was reached. -/
inductive Failure
  | rejected (error : ParseError)
  | malformed (token : Token)
  | exhausted

/-- Where a parser stands: the tokens that are left and the next free node number. -/
structure Cursor where
  rest : List Token
  nextId : Nat := 0

/-- A parser keeps its cursor when it fails. -/
abbrev Parser := EStateM Failure Cursor

namespace Cursor

/-- The next token, the end mark if there is none. -/
def peek (c : Cursor) : Token :=
  c.rest.headD (Token.endMark {})

/-- Whether no token is left but the end mark. -/
def atEnd (c : Cursor) : Bool :=
  c.peek.kind = .eof

/-- Whether the next token is of a kind. The end mark is of none. -/
def sees (c : Cursor) (kind : Kind) : Bool :=
  !c.atEnd && c.peek.kind = kind

/-- The cursor after the next token. The end mark is never passed. -/
def advance (c : Cursor) : Cursor :=
  if c.atEnd then c else { c with rest := c.rest.tail }

end Cursor

namespace Parser

/-! ### Single tokens -/

/-- Fails at the next token. -/
def reject {α : Type} (cause : ParseCause) : Parser α :=
  fun c => .error (.rejected ⟨c.peek, cause⟩) c

/-- The outcome when the bound on the depth of rules was too small. -/
def exhausted {α : Type} : Parser α :=
  throw .exhausted

/-- Whether the next token is of a kind. -/
def sees (kind : Kind) : Parser Bool :=
  fun c => .ok (c.sees kind) c

/-- Whether only the end mark is left. -/
def atEnd : Parser Bool :=
  fun c => .ok c.atEnd c

/-- Takes the next token if it is of one of the kinds. -/
def acceptAny (kinds : List Kind) : Parser (Option Token) :=
  fun c => if kinds.any c.sees then .ok (some c.peek) c.advance else .ok none c

/-- Takes the next token if it is of the kind. -/
def accept (kind : Kind) : Parser (Option Token) :=
  acceptAny [kind]

/-- Takes the next token, which has to be of the kind. -/
def expect (kind : Kind) (cause : ParseCause) : Parser Token :=
  fun c => if c.sees kind then .ok c.peek c.advance else .error (.rejected ⟨c.peek, cause⟩) c

/-- Hands out the next free node number. -/
def freshId : Parser Nat :=
  fun c => .ok c.nextId { c with nextId := c.nextId + 1 }

end Parser

/-! ### Levels of binary operators -/

/-- The levels of binary operators, from the loosest to the tightest. -/
inductive Level
  | or
  | and
  | equality
  | comparison
  | term
  | factor
  deriving DecidableEq

namespace Level

/-- The operators of a level. -/
def operators : Level → List Kind
  | .or => [.orWord]
  | .and => [.andWord]
  | .equality => [.bangEqual, .equalEqual]
  | .comparison => [.greater, .greaterEqual, .less, .lessEqual]
  | .term => [.minus, .plus]
  | .factor => [.star, .slash, .percent, .caret]

/-- The next tighter level. -/
def tighter? : Level → Option Level
  | .or => some .and
  | .and => some .equality
  | .equality => some .comparison
  | .comparison => some .term
  | .term => some .factor
  | .factor => none

/-- The node of an operator of the level. -/
def node : Level → Token → Expr → Expr → Expr
  | .or | .and => Expr.logical
  | _ => Expr.binary

end Level

/-- What `target = value` means, if `target` can be assigned to. The number of a variable node
passes on to its assignment. -/
def assignment? (target value : Expr) : Option Expr :=
  match target with
  | .variable id name => some (.assign id name value)
  | .get object name => some (.set object name value)
  | _ => none

namespace Parser

/-! ### Expressions -/

/-- A literal, if the next token is one. -/
def literal? : Parser (Option Expr) := do
  match ← acceptAny [.falseWord, .trueWord, .nilWord, .number, .string] with
  | none => return none
  | some t =>
      match t.kind, t.literal with
      | .falseWord, _ => return some (.literal (.bool false))
      | .trueWord, _ => return some (.literal (.bool true))
      | .nilWord, _ => return some (.literal .nil)
      | .number, some (.number x) => return some (.literal (.number x))
      | .string, some (.text s) => return some (.literal (.text s))
      | _, _ => throw (.malformed t)

mutual

/-- An assignment, or an expression that binds tighter. -/
def expression : Nat → Parser Expr
  | 0 => exhausted
  | n + 1 => do
      let target ← ternary n
      match ← accept .equal with
      | none => return target
      | some equals =>
          let value ← expression n
          match assignment? target value with
          | some e => return e
          | none => throw (.rejected ⟨equals, .invalidTarget⟩)

/-- A condition with one or two branches, or a binary expression. -/
def ternary : Nat → Parser Expr
  | 0 => exhausted
  | n + 1 => do
      let cond ← level n .or
      match ← accept .question with
      | none => return cond
      | some question =>
          let yes ← expression n
          match ← accept .colon with
          | none => return .ternary cond question yes none
          | some _ =>
              let no ← expression n
              return .ternary cond question yes (some no)

/-- Operands of a level, joined from the left by its operators. -/
def level : Nat → Level → Parser Expr
  | 0, _ => exhausted
  | n + 1, l => do
      let lhs ← operand n l
      chain n l lhs

/-- An operand of a level: an expression of the next tighter one. -/
def operand : Nat → Level → Parser Expr
  | 0, _ => exhausted
  | n + 1, l =>
      match l.tighter? with
      | some l' => level n l'
      | none => unary n

/-- Further operators and operands of a level after `lhs`. -/
def chain : Nat → Level → Expr → Parser Expr
  | 0, _, _ => exhausted
  | n + 1, l, lhs => do
      match ← acceptAny l.operators with
      | none => return lhs
      | some op =>
          let rhs ← operand n l
          chain n l (l.node op lhs rhs)

/-- A negation, or a call. -/
def unary : Nat → Parser Expr
  | 0 => exhausted
  | n + 1 => do
      match ← acceptAny [.bang, .minus] with
      | some op =>
          let e ← unary n
          return .unary op e
      | none =>
          let e ← primary n
          suffixes n e

/-- Argument lists and property names after `e`. -/
def suffixes : Nat → Expr → Parser Expr
  | 0, _ => exhausted
  | n + 1, e => do
      match ← accept .leftParen with
      | some _ =>
          let args ← if ← sees .rightParen then pure [] else arguments n 0
          let paren ← expect .rightParen .endOfArguments
          suffixes n (.call e paren args)
      | none =>
          match ← accept .dot with
          | some _ =>
              let name ← expect .identifier .propertyName
              suffixes n (.get e name)
          | none => return e

/-- Arguments separated by commas, after `count` earlier ones. -/
def arguments : Nat → Nat → Parser (List Expr)
  | 0, _ => exhausted
  | n + 1, count =>
      if maxArguments ≤ count then reject .tooManyArguments
      else do
        let arg ← expression n
        match ← accept .comma with
        | none => return [arg]
        | some _ =>
            let rest ← arguments n (count + 1)
            return arg :: rest

/-- A literal, a variable or an expression in parentheses. -/
def primary : Nat → Parser Expr
  | 0 => exhausted
  | n + 1 => do
      match ← literal? with
      | some e => return e
      | none =>
          match ← accept .identifier with
          | some name =>
              let id ← freshId
              return .variable id name
          | none =>
              match ← accept .leftParen with
              | some _ =>
                  let inner ← expression n
                  let _ ← expect .rightParen .endOfGroup
                  return .group inner
              | none => reject .expression

end

/-! ### Statements -/

/-- Parameter names separated by commas, after `count` earlier ones. -/
def parameters : Nat → Nat → Parser (List Token)
  | 0, _ => exhausted
  | n + 1, count =>
      if maxArguments ≤ count then reject .tooManyParameters
      else do
        let param ← expect .identifier .parameterName
        match ← accept .comma with
        | none => return [param]
        | some _ =>
            let rest ← parameters n (count + 1)
            return param :: rest

/-- A variable declaration after `var`. -/
def varDecl (n : Nat) : Parser Stmt := do
  let name ← expect .identifier .variableName
  match ← accept .equal with
  | none =>
      let _ ← expect .semicolon .endOfDeclaration
      return .varDecl name none
  | some _ =>
      let init ← expression n
      let _ ← expect .semicolon .endOfDeclaration
      return .varDecl name (some init)

/-- A print statement after its keyword. -/
def printStmt (n : Nat) : Parser Stmt := do
  let value ← expression n
  let _ ← expect .semicolon .endOfPrint
  return .print value

/-- A return statement after its keyword. -/
def returnStmt (n : Nat) (keyword : Token) : Parser Stmt := do
  if ← sees .semicolon then
    let _ ← expect .semicolon .endOfReturn
    return .ret keyword none
  else
    let value ← expression n
    let _ ← expect .semicolon .endOfReturn
    return .ret keyword (some value)

/-- An expression statement. -/
def exprStmt (n : Nat) : Parser Stmt := do
  let value ← expression n
  let _ ← expect .semicolon .endOfExpression
  return .expr value

mutual

/-- A variable declaration, or a statement. -/
def declaration : Nat → Parser Stmt
  | 0 => exhausted
  | n + 1 => do
      match ← accept .varWord with
      | some _ => varDecl n
      | none => statement n

/-- A statement, chosen by its first token. -/
def statement : Nat → Parser Stmt
  | 0 => exhausted
  | n + 1 => do
      match ← acceptAny [.printWord, .ifWord, .whileWord, .funcWord, .classWord, .returnWord,
          .leftBrace] with
      | none => exprStmt n
      | some t =>
          match t.kind with
          | .printWord => printStmt n
          | .ifWord => ifStmt n
          | .whileWord => whileStmt n t
          | .funcWord =>
              let decl ← function n .function
              return .function decl
          | .classWord => classDecl n
          | .returnWord => returnStmt n t
          | _ =>
              let body ← block n
              return .block body

/-- The statements of a block up to its closing brace. -/
def block : Nat → Parser (List Stmt)
  | 0 => exhausted
  | n + 1 => do
      if (← sees .rightBrace) || (← atEnd) then
        let _ ← expect .rightBrace .endOfBlock
        return []
      else
        let first ← declaration n
        let rest ← block n
        return first :: rest

/-- A condition with one or two branches after `if`. -/
def ifStmt : Nat → Parser Stmt
  | 0 => exhausted
  | n + 1 => do
      let _ ← expect .leftParen .startOfIfCondition
      let cond ← expression n
      let _ ← expect .rightParen .endOfIfCondition
      let yes ← statement n
      match ← accept .elseWord with
      | none => return .branch cond yes none
      | some _ =>
          let no ← statement n
          return .branch cond yes (some no)

/-- A loop after its keyword. -/
def whileStmt : Nat → Token → Parser Stmt
  | 0, _ => exhausted
  | n + 1, keyword => do
      let _ ← expect .leftParen (.startOfLoopCondition keyword.lexeme)
      let cond ← expression n
      let _ ← expect .rightParen .endOfLoopCondition
      let body ← statement n
      return .loop cond body

/-- A function or method from its name on. -/
def function : Nat → FunKind → Parser FunDecl
  | 0, _ => exhausted
  | n + 1, kind => do
      let name ← expect .identifier (.functionName kind)
      let _ ← expect .leftParen (.startOfParameters kind)
      let params ← if ← sees .rightParen then pure [] else parameters n 0
      let _ ← expect .rightParen .endOfParameters
      let _ ← expect .leftBrace (.startOfBody kind)
      let body ← block n
      return .mk name params body

/-- A class after its keyword. -/
def classDecl : Nat → Parser Stmt
  | 0 => exhausted
  | n + 1 => do
      let name ← expect .identifier .className
      let _ ← expect .leftBrace .startOfClass
      let methods ← methods n
      return .classDecl name methods

/-- The methods of a class up to its closing brace. -/
def methods : Nat → Parser (List FunDecl)
  | 0 => exhausted
  | n + 1 => do
      if (← sees .rightBrace) || (← atEnd) then
        let _ ← expect .rightBrace .endOfClass
        return []
      else
        let first ← function n .method
        let rest ← methods n
        return first :: rest

end

/-- The statements up to the end mark. -/
def statements : Nat → Parser (List Stmt)
  | 0 => exhausted
  | n + 1 => do
      if ← atEnd then
        return []
      else
        let first ← declaration n
        let rest ← statements n
        return first :: rest

/-! ### Programs -/

/-- A bound on the depth of rules for the tokens that are left: fewer than 24 rules open between
one token and the next. -/
def depthFor (c : Cursor) : Nat :=
  24 * (c.rest.length + 1)

/-- Parses the tokens that are left into a program. -/
def program : Parser Program := do
  let stmts ← statements (depthFor (← get))
  return ⟨stmts, (← get).nextId⟩

end Parser

/-- Runs the parser once. It may be run again on the cursor it leaves, also after a failure: it
goes on at the token where it stopped, and node numbers go on counting. -/
def Program.parse (c : Cursor) : Except Failure Program × Cursor :=
  match Parser.program c with
  | .ok p c' => (.ok p, c')
  | .error e c' => (.error e, c')

end Wandika
