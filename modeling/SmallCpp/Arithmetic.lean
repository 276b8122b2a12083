import SmallCpp.Operator
import SmallCpp.Value

/-!
# Arithmetic

Operands that are characters or truth values count as integers. Sums, differences and products
wrap around at 64 bits; division and remainder go toward zero and fail only for a zero divisor.
-/

namespace SmallCpp

/-- The result of an arithmetic operator on two integers. -/
def ArithOp.onInts (op : ArithOp) (l r : Int64) : Except RuntimeError Int64 :=
  match op with
  | add => .ok (l + r)
  | sub => .ok (l - r)
  | mul => .ok (l * r)
  | div => if r = 0 then .error .divisionByZero else .ok (l / r)
  | rem => if r = 0 then .error .divisionByZero else .ok (l % r)

/-- The result of a comparison of two integers. -/
def CompareOp.onInts (op : CompareOp) (l r : Int64) : Bool :=
  match op with
  | eq => l = r
  | ne => l ≠ r
  | lt => l < r
  | le => l ≤ r
  | gt => l > r
  | ge => l ≥ r

/-- The result of an arithmetic operator on two values. -/
def ArithOp.apply (op : ArithOp) (left right : Value) : Except RuntimeError Value := do
  let l ← left.asInt
  let r ← right.asInt
  return .int (← op.onInts l r)

/-- The result of a comparison of two values. -/
def CompareOp.apply (op : CompareOp) (left right : Value) : Except RuntimeError Value := do
  let l ← left.asInt
  let r ← right.asInt
  return .bool (op.onInts l r)

/-- The result of an operator that stands before its operand. -/
def UnaryOp.apply (op : UnaryOp) (operand : Value) : Except RuntimeError Value :=
  match op with
  | neg => operand.asInt.map fun n => .int (-n)
  | plus => operand.asInt.map .int
  | not => operand.asBool.map fun b => .bool !b

end SmallCpp
