import Wandika.Frames
import Wandika.Scope

/-!
# Values

* `Closure`: a function with the frame and the table it was declared under;
* `Overloads`: functions of one name, told apart by their number of parameters;
* `Value`: a datum, a function or a set of overloads;
* `Value.render`, `Value.isTruthy`, `Value.isEqual`, `Value.compare`;
* `power`: exponentiation.

Functions, classes and objects are equal only to themselves, so each carries a number of its own.
-/

namespace Wandika

/-- A function: its declaration, the frame it was declared in, and the table of the unit it was
declared in. -/
structure Closure where
  id : Nat
  decl : FunDecl
  frame : FrameId
  locals : Locals

/-- How many arguments a function takes. -/
def Closure.arity (f : Closure) : Nat := f.decl.arity

/-- Functions of one name, in ascending order of their number of parameters. -/
structure Overloads where
  id : Nat
  name : String
  functions : List Closure

namespace Overloads

/-- Puts a function in its place, instead of one that takes as many arguments. -/
def insert (f : Closure) : List Closure → List Closure
  | [] => [f]
  | g :: gs =>
      if f.arity < g.arity then f :: g :: gs
      else if f.arity = g.arity then f :: gs
      else g :: insert f gs

/-- The function that takes a number of arguments. -/
def select? (o : Overloads) (count : Nat) : Option Closure :=
  o.functions.find? (·.arity = count)

/-- The numbers of arguments that are taken. -/
def arities (o : Overloads) : List Nat :=
  o.functions.map Closure.arity

end Overloads

/-- The values of the language. -/
inductive Value
  | datum (d : Datum)
  | function (f : Closure)
  | overloads (o : Overloads)

namespace Value

/-- No value at all. -/
@[match_pattern] abbrev absent : Value := .datum .absent

/-- The value of a function that returns nothing. -/
@[match_pattern] abbrev nil : Value := .datum .nil

/-- A number. -/
@[match_pattern] abbrev number (x : Float) : Value := .datum (.number x)

/-- A text. -/
@[match_pattern] abbrev text (s : String) : Value := .datum (.text s)

/-- A truth value. -/
@[match_pattern] abbrev bool (b : Bool) : Value := .datum (.bool b)

/-- An object. -/
@[match_pattern] abbrev object (o : Object) : Value := .datum (.object o)

instance : Inhabited Value := ⟨.nil⟩

/-- The printed form of a value. -/
def render : Value → String
  | .datum d => d.render
  | .function f => "<fn " ++ f.decl.name.lexeme ++ "/" ++ toString f.arity ++ ">"
  | .overloads o =>
      "<fn " ++ o.name ++ "/\x7b" ++ String.intercalate "," (o.arities.map toString) ++ "\x7d>"

/-- Nil and false are false, and so is the lack of a value; everything else is true. -/
def isTruthy : Value → Bool
  | .absent => false
  | .nil => false
  | .bool b => b
  | _ => true

/-- Whether a value is nil or missing. -/
def isNil : Value → Bool
  | .absent => true
  | .nil => true
  | _ => false

/-- Equality: nil equals nil only; numbers, texts and truth values are compared by what they are,
the others by identity. -/
def isEqual (a b : Value) : Bool :=
  if a.isNil || b.isNil then a.isNil && b.isNil
  else
    match a, b with
    | .number x, .number y => x == y
    | .text s, .text t => s == t
    | .bool p, .bool q => p == q
    | .datum (.cls c), .datum (.cls d) => c.id == d.id
    | .object o, .object p => o.id == p.id
    | .function f, .function g => f.id == g.id
    | .overloads o, .overloads p => o.id == p.id
    | _, _ => false

/-- The number of characters of a text. -/
def length (s : String) : Float :=
  Float.ofNat s.length

/-- What the relational operators compare: numbers, and texts by their length. -/
def measure? : Value → Option Float
  | .number x => some x
  | .text s => some (length s)
  | _ => none

/-- The relational operators. They are false on anything that has no measure. -/
def compare (op : Kind) (a b : Value) : Bool :=
  match a.measure?, b.measure? with
  | some x, some y =>
      match op with
      | .greater => y < x
      | .greaterEqual => y ≤ x
      | .less => x < y
      | .lessEqual => x ≤ y
      | _ => false
  | _, _ => false

end Value

/-! ### Exponentiation -/

/-- The largest exponent that is computed by repeated multiplication. -/
def maxRepeated : Float := 65536.0

/-- `acc · base ^ count`, one multiplication at a time. -/
def multiplyTimes (base : Float) : (count : Nat) → (acc : Float) → Float
  | 0, acc => acc
  | count + 1, acc => multiplyTimes base count (acc * base)

/-- Exponentiation. The exponent zero always gives one; a whole exponent that is not too large is
computed by repeated multiplication. -/
def power (base exponent : Float) : Float :=
  if exponent == 0 then 1
  else if 0 < exponent && exponent ≤ maxRepeated && exponent == exponent.floor then
    multiplyTimes base exponent.toUInt64.toNat 1
  else Float.pow base exponent

end Wandika
