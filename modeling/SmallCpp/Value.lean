import SmallCpp.RuntimeError

/-!
# Values

Integers have 64 bits and wrap, a character is a byte, arrays and records hold values. The type of
an array is read off its first element, so an array is well formed only if its elements agree.
Scalars convert freely between each other; arrays and records only to their own type.
-/

namespace SmallCpp

/-- A value of the running program. -/
inductive Value
  | int (n : Int64)
  | bool (b : Bool)
  | char (c : UInt8)
  | array (elems : List Value)
  /-- A record: its name, its layout, and a value for each field. -/
  | record (name : String) (layout : List (String × ValueType)) (fields : List Value)
  /-- What a call of a `void` function yields; it is never stored. -/
  | void
deriving Repr, Inhabited

namespace Value

/-- The outermost form of a value. -/
def shape : Value → Shape
  | int _ => .int
  | bool _ => .bool
  | char _ => .char
  | array _ => .array
  | record .. => .record
  | void => .void

/-- The type of a value; an array without elements counts as an array of `int`. -/
def type : Value → ValueType
  | int _ => .int
  | bool _ => .bool
  | char _ => .char
  | array [] => .array .int 0
  | array (first :: rest) => .array first.type (rest.length + 1)
  | record name layout _ => .record name layout
  | void => .void

/-- A truth value as an integer. -/
def ofBool (b : Bool) : Int64 :=
  if b then 1 else 0

/-- The integer that a scalar stands for. -/
def asInt : Value → Except RuntimeError Int64
  | int n => .ok n
  | bool b => .ok (ofBool b)
  | char c => .ok (Int64.ofNat c.toNat)
  | v => .error (.typeMismatch (.notInteger v.shape))

/-- The truth value that a scalar stands for: whether it is not zero. -/
def asBool : Value → Except RuntimeError Bool
  | bool b => .ok b
  | int n => .ok (n != 0)
  | char c => .ok (c != 0)
  | v => .error (.typeMismatch (.notCondition v.shape))

/-- The lowest byte of an integer. -/
def lowByte (n : Int64) : UInt8 :=
  n.toUInt64.toUInt8

/-- The character that a scalar stands for: the lowest byte of its integer. -/
def asChar (v : Value) : Except RuntimeError UInt8 :=
  v.asInt.map lowByte

/-- Converts a value for a place of the given type. -/
def convert (v : Value) : ValueType → Except RuntimeError Value
  | .int => v.asInt.map int
  | .bool => v.asBool.map bool
  | .char => v.asChar.map char
  | .void => .error (.typeMismatch (.usedAsVoid v.shape))
  | target =>
    if v.type = target then .ok v else .error (.typeMismatch (.wrongType target v.type))

end Value

namespace ValueType

mutual

/-- What a variable of the type holds before anything is stored in it. An array may have any length:
that memory ends somewhere is left out, so the zero value of a type is always there. -/
def zero : ValueType → Value
  | int => .int 0
  | bool => .bool false
  | char => .char 0
  | void => .void
  | array elem length => .array (List.replicate length elem.zero)
  | record name layout => .record name layout (zeros layout)

/-- The zero values of a layout. -/
def zeros : List (String × ValueType) → List Value
  | [] => []
  | (_, type) :: rest => type.zero :: zeros rest

end

end ValueType

namespace Value

/-- The place of an index in a list of the given length. -/
def slot? (index : Int64) (length : Nat) : Option Nat :=
  if 0 ≤ index.toInt ∧ index.toInt < length then some index.toInt.toNat else none

/-- The element of an array at an index. -/
def element (v : Value) (index : Int64) : Except RuntimeError Value :=
  match v with
  | array elems =>
    match slot? index elems.length >>= (elems[·]?) with
    | some elem => .ok elem
    | none => .error (.indexOutOfRange index elems.length)
  | v => .error (.typeMismatch (.notIndexable v.shape))

/-- The field of a record by name. -/
def member (v : Value) (id : String) : Except RuntimeError Value :=
  match v with
  | record name layout fields =>
    match Layout.indexOf? layout id >>= (fields[·]?) with
    | some field => .ok field
    | none => .error (.unknownField name id)
  | v => .error (.typeMismatch (.notRecord id v.shape))

end Value

end SmallCpp
