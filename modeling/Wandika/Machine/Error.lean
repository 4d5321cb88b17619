import Wandika.Report
import Wandika.Value

/-!
# Errors while running

* `RuntimeCause`: what went wrong, `RuntimeCause.message` its wording;
* `RuntimeError`: a cause and the token closest to it.
-/

namespace Wandika

/-- What can go wrong while a program runs. -/
inductive RuntimeCause
  | undefinedVariable (name : String)
  | undefinedProperty (name : String)
  | leftOperand (op found : String)
  | rightOperand (op found : String)
  | operandOfMinus
  | divisionByZero
  | unknownBinary (op : String)
  | unknownLogical (op : String)
  | unknownUnary (op : String)
  | notCallable
  | wrongCount (expected given : Nat)
  | noOverload (name : String) (given : Nat)
  | stackOverflow
  | noProperties
  | noFields
  deriving DecidableEq

/-- The wording of a cause. -/
def RuntimeCause.message : RuntimeCause → String
  | .undefinedVariable name => "Undefined variable '" ++ name ++ "'."
  | .undefinedProperty name => "Undefined property '" ++ name ++ "'."
  | .leftOperand op found =>
      "'" ++ op ++ "' requires the left operand to be a number but found " ++ found ++ "."
  | .rightOperand op found =>
      "'" ++ op ++ "' requires the right operand to be a number but found " ++ found ++ "."
  | .operandOfMinus => "Operand of '-' must be a number."
  | .divisionByZero => "Division by zero."
  | .unknownBinary op => "Unknown binary operator '" ++ op ++ "'."
  | .unknownLogical op => "Unknown logical operator '" ++ op ++ "'."
  | .unknownUnary op => "Unknown unary operator '" ++ op ++ "'."
  | .notCallable => "Can only call functions and classes."
  | .wrongCount expected given =>
      "Expected " ++ toString expected ++ " arguments but got " ++ toString given ++ "."
  | .noOverload name given =>
      "No declaration of '" ++ name ++ "' takes " ++ toString given ++ " arguments."
  | .stackOverflow => "Stack overflow."
  | .noProperties => "Only instances have properties."
  | .noFields => "Only instances have fields."

/-- A cause and the token closest to it. -/
structure RuntimeError where
  token : Option Token
  cause : RuntimeCause

/-- An error while running as a problem. -/
def RuntimeError.problem (e : RuntimeError) : Problem :=
  .runtime e.token e.cause.message

end Wandika
