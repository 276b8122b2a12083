/-!
# Operators

The operators of expressions and their spelling.
-/

namespace SmallCpp

/-- Arithmetic on 64-bit integers. -/
inductive ArithOp
  | add | sub | mul | div | rem
deriving DecidableEq, Repr

/-- Comparison of 64-bit integers. -/
inductive CompareOp
  | eq | ne | lt | le | gt | ge
deriving DecidableEq, Repr

/-- Short-circuit connectives. -/
inductive LogicOp
  | and | or
deriving DecidableEq, Repr

/-- The operators that stand between two operands. -/
inductive BinaryOp
  | arith (op : ArithOp)
  | compare (op : CompareOp)
  | logic (op : LogicOp)
deriving DecidableEq, Repr

/-- The operators that stand before one operand. -/
inductive UnaryOp
  | neg | plus | not
deriving DecidableEq, Repr

/-- Stepping a variable by one. -/
inductive StepOp
  | increment | decrement
deriving DecidableEq, Repr

/-- Which side of its target a step operator stands on. -/
inductive Fixity
  /-- The operator comes first, and the result is the new value. -/
  | before
  /-- The operator comes last, and the result is the old value. -/
  | after
deriving DecidableEq, Repr

/-- The spelling of an arithmetic operator. -/
def ArithOp.text : ArithOp → String
  | add => "+"
  | sub => "-"
  | mul => "*"
  | div => "/"
  | rem => "%"

/-- The spelling of a comparison. -/
def CompareOp.text : CompareOp → String
  | eq => "=="
  | ne => "!="
  | lt => "<"
  | le => "<="
  | gt => ">"
  | ge => ">="

/-- The spelling of a connective. -/
def LogicOp.text : LogicOp → String
  | and => "&&"
  | or => "||"

/-- The spelling of a binary operator. -/
def BinaryOp.text : BinaryOp → String
  | arith op => op.text
  | compare op => op.text
  | logic op => op.text

/-- How tightly a binary operator binds; a higher level binds tighter. -/
def BinaryOp.level : BinaryOp → Nat
  | logic .or => 1
  | logic .and => 2
  | compare .eq | compare .ne => 3
  | compare _ => 4
  | arith .add | arith .sub => 5
  | arith _ => 6

/-- The arithmetic that a step performs with the operand one. -/
def StepOp.arith : StepOp → ArithOp
  | increment => .add
  | decrement => .sub

end SmallCpp
