import TinyScript.Eval.Error
import TinyScript.Syntax.Operator
import TinyScript.Value

/-!
Operators on values. Arithmetic is that of doubles: a division by zero gives an infinity or no
number, and is no error.
-/

namespace TinyScript

def UnaryOp.apply : UnaryOp → Value → Except RuntimeFault Value
  | neg, .number x => .ok (.number (-x))
  | neg, _ => .error .numberOperand
  | not, v => .ok (.boolean !v.truthy)

namespace BinaryOp

def arithmetic [Binary64.NaNChoice] (op : Binary64.Operation) :
    Value → Value → Except RuntimeFault Value
  | .number x, .number y => .ok (.number (op.apply x y))
  | _, _ => .error .numberOperands

def comparison (f : Binary64 → Binary64 → Bool) : Value → Value → Except RuntimeFault Value
  | .number x, .number y => .ok (.boolean (f x y))
  | _, _ => .error .numberOperands

/-- Adds numbers and joins texts. -/
def sum [Binary64.NaNChoice] : Value → Value → Except RuntimeFault Value
  | .number x, .number y => .ok (.number (Binary64.Operation.add.apply x y))
  | .text s, .text t => .ok (.text (s ++ t))
  | _, _ => .error .addOperands

def apply [Binary64.NaNChoice] : BinaryOp → Value → Value → Except RuntimeFault Value
  | add, a, b => sum a b
  | sub, a, b => arithmetic .sub a b
  | mul, a, b => arithmetic .mul a b
  | div, a, b => arithmetic .div a b
  | rem, a, b => arithmetic .rem a b
  | eq, a, b => .ok (.boolean (a.same b))
  | ne, a, b => .ok (.boolean !(a.same b))
  | lt, a, b => comparison Binary64.lt a b
  | le, a, b => comparison Binary64.le a b
  | gt, a, b => comparison (fun x y => Binary64.lt y x) a b
  | ge, a, b => comparison (fun x y => Binary64.le y x) a b

end BinaryOp

/-- Whether the left operand is the result already. -/
def LogicalOp.decides : LogicalOp → Value → Bool
  | or, v => v.truthy
  | and, v => !v.truthy

end TinyScript
