/-!
# Types of values

A resolved type: the length of every array is known and a record carries its layout. Types are
compared by structure, layouts included.
-/

namespace SmallCpp

/-- The type of a value or of a place that holds one. -/
inductive ValueType
  | int | bool | char | void
  | array (elem : ValueType) (length : Nat)
  /-- A record with its name and its fields in declaration order. -/
  | record (name : String) (layout : List (String × ValueType))
deriving Repr, Inhabited

/-- The fields of a record in declaration order. -/
abbrev Layout := List (String × ValueType)

namespace ValueType

mutual

/-- Equality of types can be decided. -/
def decEq : (s t : ValueType) → Decidable (s = t)
  | int, t => match t with
    | int => isTrue rfl
    | bool | char | void | array .. | record .. => isFalse nofun
  | bool, t => match t with
    | bool => isTrue rfl
    | int | char | void | array .. | record .. => isFalse nofun
  | char, t => match t with
    | char => isTrue rfl
    | int | bool | void | array .. | record .. => isFalse nofun
  | void, t => match t with
    | void => isTrue rfl
    | int | bool | char | array .. | record .. => isFalse nofun
  | array elem n, t => match t with
    | array elem' n' =>
      match decEq elem elem' with
      | isTrue h =>
        if h' : n = n' then isTrue (by rw [h, h'])
        else isFalse (by intro e; injection e; contradiction)
      | isFalse h => isFalse (by intro e; injection e; contradiction)
    | int | bool | char | void | record .. => isFalse nofun
  | record name layout, t => match t with
    | record name' layout' =>
      match decEqLayout layout layout' with
      | isTrue h =>
        if h' : name = name' then isTrue (by rw [h, h'])
        else isFalse (by intro e; injection e; contradiction)
      | isFalse h => isFalse (by intro e; injection e; contradiction)
    | int | bool | char | void | array .. => isFalse nofun

/-- Equality of layouts can be decided. -/
def decEqLayout : (s t : List (String × ValueType)) → Decidable (s = t)
  | [], t => match t with
    | [] => isTrue rfl
    | _ :: _ => isFalse nofun
  | (name, type) :: rest, t => match t with
    | [] => isFalse nofun
    | (name', type') :: rest' =>
      match decEq type type' with
      | isTrue h =>
        match decEqLayout rest rest' with
        | isTrue h' =>
          if h'' : name = name' then isTrue (by rw [h, h', h''])
          else isFalse (by intro e; injection e with e; injection e; contradiction)
        | isFalse h' => isFalse (by intro e; injection e; contradiction)
      | isFalse h => isFalse (by intro e; injection e with e; injection e; contradiction)

end

instance : DecidableEq ValueType := decEq

/-- The type as messages name it: an array's own length comes last, so that `int a[2][3]` has the
type `int[3][2]`. -/
def text : ValueType → String
  | int => "int"
  | bool => "bool"
  | char => "char"
  | void => "void"
  | array elem length => s!"{elem.text}[{length}]"
  | record name _ => name

end ValueType

/-- The place of a field in a layout. -/
def Layout.indexOf? (layout : Layout) (member : String) : Option Nat :=
  layout.findIdx? (·.1 == member)

end SmallCpp
