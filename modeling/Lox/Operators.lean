import Lox.RuntimeError
import Lox.Value

/-!
# Operators

What an operator makes of the values of its operands.  Arithmetic and comparison
want numbers; only addition also joins texts.  Any two values can be tested for
equality.
-/

namespace Lox

/-- Applies a function to two numbers. -/
def onNumbers {α : Type} (f : Float → Float → α) :
    Value → Value → Except RuntimeFault α
  | .number a, .number b => .ok (f a b)
  | _, _ => .error .operandsNotNumbers

/-- The value of a unary operator. -/
def UnaryOp.apply : UnaryOp → Value → Except RuntimeFault Value
  | .negate, .number x => .ok (.number (-x))
  | .negate, _ => .error .operandNotNumber
  | .not, value => .ok (.bool !value.isTruthy)

/-- The value of an addition. -/
def addValues : Value → Value → Except RuntimeFault Value
  | .number a, .number b => .ok (.number (a + b))
  | .text a, .text b => .ok (.text (a ++ b))
  | _, _ => .error .operandsNotAddable

/-- The value of a division.  A divisor of zero is an error. -/
def divideValues : Value → Value → Except RuntimeFault Value
  | .number a, .number b =>
    if b == 0.0 then .error .divisionByZero else .ok (.number (a / b))
  | _, _ => .error .operandsNotNumbers

/-- The value of a binary operator. -/
def BinaryOp.apply (op : BinaryOp) (left right : Value) : Except RuntimeFault Value :=
  match op with
  | .add => addValues left right
  | .subtract => (onNumbers (· - ·) left right).map .number
  | .multiply => (onNumbers (· * ·) left right).map .number
  | .divide => divideValues left right
  | .equal => .ok (.bool (left.equal right))
  | .notEqual => .ok (.bool !(left.equal right))
  | .less => (onNumbers (fun a b => decide (a < b)) left right).map .bool
  | .lessEqual => (onNumbers (fun a b => decide (a ≤ b)) left right).map .bool
  | .greater => (onNumbers (fun a b => decide (b < a)) left right).map .bool
  | .greaterEqual => (onNumbers (fun a b => decide (b ≤ a)) left right).map .bool

/-- The left operand alone decides the value of a logical operator. -/
def LogicalOp.isDecidedBy : LogicalOp → Value → Bool
  | .or, left => left.isTruthy
  | .and, left => !left.isTruthy

end Lox
