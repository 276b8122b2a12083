/-!
# Output primitives

The functions that every program may call without declaring them. Each takes one argument and
prints it.
-/

namespace SmallCpp

/-- An output primitive. -/
inductive Primitive
  | printInt | printChar | printBool
deriving DecidableEq, Repr

namespace Primitive

/-- The name by which programs call the primitive. -/
def name : Primitive → String
  | printInt => "print_int"
  | printChar => "print_char"
  | printBool => "print_bool"

/-- All primitives. -/
def all : List Primitive :=
  [printInt, printChar, printBool]

/-- The primitive of the given name, if any. -/
def ofName? (id : String) : Option Primitive :=
  all.find? (·.name == id)

end Primitive

end SmallCpp
