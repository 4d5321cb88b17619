import Wandika.Machine.Error

/-!
# Operators

What the unary and binary operators do to values. Both operands of a binary operator are known
before it is applied.
-/

namespace Wandika

/-- The number operators: both operands have to be numbers, and the left one is looked at
first. -/
def arithmetic (op : Token) (x y : Float) : Except RuntimeError Value :=
  match op.kind with
  | .minus => .ok (.number (x - y))
  | .star => .ok (.number (x * y))
  | .slash => if y == 0 then .error ⟨op, .divisionByZero⟩ else .ok (.number (x / y))
  | .percent =>
      if y == 0 then .error ⟨op, .divisionByZero⟩ else .ok (.number (Decimal.remainder x y))
  | .caret => .ok (.number (power x y))
  | _ => .error ⟨op, .unknownBinary op.lexeme⟩

/-- The operands as numbers. -/
def numbers (op : Token) (a b : Value) : Except RuntimeError (Float × Float) :=
  match a, b with
  | .number x, .number y => .ok (x, y)
  | .number _, b => .error ⟨op, .rightOperand op.lexeme b.render⟩
  | a, _ => .error ⟨op, .leftOperand op.lexeme a.render⟩

/-- A sum of two numbers; any other two values are joined as texts. -/
def add (a b : Value) : Value :=
  match a, b with
  | .number x, .number y => .number (x + y)
  | a, b => .text (a.render ++ b.render)

/-- A binary operator on its operands. -/
def applyBinary (op : Token) (a b : Value) : Except RuntimeError Value :=
  match op.kind with
  | .bangEqual => .ok (.bool (!a.isEqual b))
  | .equalEqual => .ok (.bool (a.isEqual b))
  | .greater | .greaterEqual | .less | .lessEqual => .ok (.bool (Value.compare op.kind a b))
  | .plus => .ok (add a b)
  | _ => do
      let (x, y) ← numbers op a b
      arithmetic op x y

/-- A unary operator on its operand. -/
def applyUnary (op : Token) (a : Value) : Except RuntimeError Value :=
  match op.kind with
  | .bang => .ok (.bool (!a.isTruthy))
  | .minus =>
      match a with
      | .number x => .ok (.number (-x))
      | _ => .error ⟨op, .operandOfMinus⟩
  | _ => .error ⟨op, .unknownUnary op.lexeme⟩

/-- Whether the left operand alone decides a logical operator. -/
def decides (op : Token) (a : Value) : Except RuntimeError Bool :=
  match op.kind with
  | .orWord => .ok a.isTruthy
  | .andWord => .ok (!a.isTruthy)
  | _ => .error ⟨op, .unknownLogical op.lexeme⟩

end Wandika
