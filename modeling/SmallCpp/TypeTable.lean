import SmallCpp.Arithmetic
import SmallCpp.Program

/-!
# Resolving written types

The bounds of an array are constant expressions, evaluated by `Expr.constant`; record names are
looked up in the table of records defined so far.
-/

namespace SmallCpp

namespace Expr

/-- How the message about a bound names an expression that is not constant. -/
def boundText : Expr → String
  | name id _ => id
  | call callee .. => s!"{callee}(..)"
  | binary op .. => s!"expression using `{op.text}`"
  | _ => "expression"

/-- The value of an expression built only from literals, operators before an operand and
arithmetic. -/
def constant : Expr → Except RuntimeError Int64
  | literal (.int n) _ => .ok n
  | literal (.char c) _ => .ok (Int64.ofNat c.toNat)
  | literal (.bool b) _ => .ok (Value.ofBool b)
  | unary op operand _ => do
    let n ← operand.constant
    match op with
    | .neg => return -n
    | .plus => return n
    | .not => return Value.ofBool (n = 0)
  | e@(binary op left right _) => do
    let l ← left.constant
    let r ← right.constant
    match op with
    | .arith arith => arith.onInts l r
    | _ => .error (.nonConstantBound e.boundText)
  | e => .error (.nonConstantBound e.boundText)

/-- The length that an array bound stands for. -/
def arrayLength (bound : Expr) : Except RuntimeError Nat := do
  let n ← bound.constant
  if 0 < n.toInt then
    return n.toInt.toNat
  else
    .error (.typeMismatch (.lengthNotPositive n))

end Expr

/-- The records defined so far, with their layouts. -/
structure TypeTable where
  /-- Name and layout of each record. -/
  records : List (String × Layout)
deriving Repr, Inhabited

namespace TypeTable

/-- The table without records. -/
def empty : TypeTable :=
  ⟨[]⟩

/-- The layout of a record, if it is defined. -/
def layout? (t : TypeTable) (name : String) : Option Layout :=
  t.records.lookup name

/-- The length of an array's outermost dimension: its bound, or without one the number of
initializers, which must not be zero. -/
def outerLength (count : Option Nat) : Option Expr → Except RuntimeError Nat
  | some bound => bound.arrayLength
  | none =>
    match count with
    | some (n + 1) => .ok (n + 1)
    | _ => .error (.typeMismatch .lengthMissing)

/-- The type that a written type stands for; `count` is the length to take where the outermost
bound is left out. -/
def resolve (t : TypeTable) (count : Option Nat) : WrittenType → Except RuntimeError ValueType
  | .int => .ok .int
  | .bool => .ok .bool
  | .char => .ok .char
  | .void => .ok .void
  | .named name =>
    match t.layout? name with
    | some layout => .ok (.record name layout)
    | none => .error (.unknownType name)
  | .array elem bound => do
    let length ← outerLength count bound
    let type ← t.resolve none elem
    if type = .void then
      .error (.typeMismatch .arrayOfVoid)
    else
      return .array type length

/-- The layout of a record's members, after those in `done`; `name` is the record's name. -/
def layoutOf (t : TypeTable) (name : String) (done : Layout) :
    List FieldDecl → Except RuntimeError Layout
  | [] => .ok done
  | field :: rest => do
    if done.any (·.1 == field.name) then
      .error (.duplicateDeclaration s!"{name}::{field.name}")
    else
      let type ← t.resolve none field.type
      t.layoutOf name (done ++ [(field.name, type)]) rest

/-- Adds a record, whose name must be new. -/
def define (t : TypeTable) (decl : RecordDecl) : Except RuntimeError TypeTable := do
  if (t.layout? decl.name).isSome then
    .error (.duplicateDeclaration decl.name)
  else
    let layout ← t.layoutOf decl.name [] decl.fields
    return ⟨t.records ++ [(decl.name, layout)]⟩

end TypeTable

end SmallCpp
