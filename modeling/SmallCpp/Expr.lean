import SmallCpp.Operator
import SmallCpp.Span

/-!
# Expressions

The tree of an expression. Every node keeps the span of the source it was read from; a
parenthesised expression keeps the span of what stands between the parentheses.
-/

namespace SmallCpp

/-- A constant written in the source. -/
inductive Literal
  | int (value : Int64)
  | bool (value : Bool)
  | char (value : UInt8)
deriving DecidableEq, Repr

/-- An expression. -/
inductive Expr
  | literal (value : Literal) (span : Span)
  | name (id : String) (span : Span)
  | binary (op : BinaryOp) (left right : Expr) (span : Span)
  | unary (op : UnaryOp) (operand : Expr) (span : Span)
  /-- Assignment; with an operator, the target's value is combined with the right side first. -/
  | assign (op : Option ArithOp) (target value : Expr) (span : Span)
  | step (op : StepOp) (fixity : Fixity) (target : Expr) (span : Span)
  | call (callee : String) (calleeSpan : Span) (args : List Expr) (span : Span)
  | index (base subscript : Expr) (span : Span)
  | field (base : Expr) (member : String) (span : Span)
deriving Repr, Inhabited

namespace Expr

/-- Where the expression stands. -/
def span : Expr → Span
  | literal _ s | name _ s | binary _ _ _ s | unary _ _ s | assign _ _ _ s | step _ _ _ s
  | call _ _ _ s | index _ _ s | field _ _ s => s

/-- Whether the expression names storage: a name, or an element or a field of a place. -/
def isPlace : Expr → Bool
  | name .. => true
  | index base _ _ => base.isPlace
  | field base _ _ => base.isPlace
  | _ => false

end Expr

end SmallCpp
