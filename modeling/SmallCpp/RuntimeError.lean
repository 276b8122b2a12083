import SmallCpp.ValueType

/-!
# Runtime errors

Why a run stops. The wording of each error is in `RuntimeError.message`, its one-word name in
`RuntimeError.kind`.
-/

namespace SmallCpp

/-- The outermost form of a value. -/
inductive Shape
  | int | bool | char | array | record | void
deriving DecidableEq, Repr

/-- The name of a shape. -/
def Shape.text : Shape → String
  | int => "int"
  | bool => "bool"
  | char => "char"
  | array => "array"
  | record => "record"
  | void => "void"

/-- An expression that names no storage, by what it yields. -/
inductive Temporary
  | literal | callResult | operatorResult | assignmentResult | other
deriving DecidableEq, Repr

/-- The name of a temporary. -/
def Temporary.text : Temporary → String
  | literal => "a literal"
  | callResult => "a call result"
  | operatorResult => "an operator result"
  | assignmentResult => "an assignment result"
  | other => "this expression"

/-- Why a type does not fit. -/
inductive Clash
  | notInteger (found : Shape)
  | notCondition (found : Shape)
  | usedAsVoid (found : Shape)
  | wrongType (expected found : ValueType)
  | notSteppable (found : Shape)
  | notIndexable (found : Shape)
  | notRecord (member : String) (found : Shape)
  | notStorage (what : Temporary)
  | temporaryArgument (param function : String)
  | argumentType (param function : String) (expected found : ValueType)
  | valueFromVoid (function : String) (found : Shape)
  | valueMissing (function : String) (expected : ValueType)
  | lengthMissing
  | lengthNotPositive (length : Int64)
  | arrayOfVoid
  | signaturesDisagree (function : String)
  | referenceUnbound (name : String)
  | referenceToTemporary (name : String)
  | referenceType (name : String) (expected found : ValueType)
  | tooManyInitializers (count : Nat) (type : ValueType)
deriving DecidableEq, Repr

/-- The wording of a clash. -/
def Clash.message : Clash → String
  | notInteger found => s!"expected an integer, found {found.text}"
  | notCondition found => s!"expected a condition, found {found.text}"
  | usedAsVoid found => s!"cannot use {found.text} as void"
  | wrongType expected found => s!"expected {expected.text}, found {found.text}"
  | notSteppable found => s!"cannot step into {found.text}"
  | notIndexable found => s!"cannot index into {found.text}"
  | notRecord member found => s!"`.{member}` applied to {found.text}"
  | notStorage what => s!"{what.text} does not name a storage location"
  | temporaryArgument param function =>
    s!"reference parameter `{param}` of `{function}` needs a variable, element or field"
  | argumentType param function expected found =>
    s!"reference parameter `{param}` of `{function}` has type {expected.text}, found {found.text}"
  | valueFromVoid function found => s!"void function `{function}` returned {found.text}"
  | valueMissing function expected => s!"`{function}` must return a value of type {expected.text}"
  | lengthMissing => "array without a bound needs a non-empty initializer list"
  | lengthNotPositive length => s!"array length must be positive, found {length.toInt}"
  | arrayOfVoid => "arrays of void are not allowed"
  | signaturesDisagree function => s!"declarations of `{function}` disagree on their signature"
  | referenceUnbound name => s!"reference `{name}` must be bound to a variable"
  | referenceToTemporary name => s!"reference `{name}` cannot bind to a temporary value"
  | referenceType name expected found =>
    s!"reference `{name}` of type {expected.text} cannot bind to {found.text}"
  | tooManyInitializers count type => s!"{count} initializers are too many for {type.text}"

/-- Why a run stops. -/
inductive RuntimeError
  | duplicateDeclaration (name : String)
  | unknownIdentifier (name : String)
  | indexOutOfRange (index : Int64) (length : Nat)
  | arityMismatch (function : String) (expected received : Nat)
  | typeMismatch (clash : Clash)
  | unknownField (record member : String)
  | unknownType (name : String)
  | undefinedFunction (name : String)
  | missingReturn (function : String)
  | divisionByZero
  | nonConstantBound (bound : String)
  | callDepthExceeded (limit : Nat)
  | output (reason : String)
deriving DecidableEq, Repr

namespace RuntimeError

/-- The wording of an error. -/
def message : RuntimeError → String
  | duplicateDeclaration name => s!"`{name}` is already declared in this scope"
  | unknownIdentifier name => s!"Unknown identifier `{name}`"
  | indexOutOfRange index length =>
    s!"Array index {index.toInt} is out of range for length {length}"
  | arityMismatch function expected received =>
    s!"Function `{function}` expected {expected} arguments but received {received}"
  | typeMismatch clash => s!"Type mismatch: {clash.message}"
  | unknownField record member => s!"Record `{record}` has no field `{member}`"
  | unknownType name => s!"Unknown type `{name}`"
  | undefinedFunction name => s!"Function `{name}` is declared but never defined"
  | missingReturn function => s!"Function `{function}` reached its end without returning a value"
  | divisionByZero => "Division by zero"
  | nonConstantBound bound => s!"Array bound `{bound}` is not a constant expression"
  | callDepthExceeded limit => s!"Call depth exceeded the limit of {limit}"
  | output reason => s!"Failed to write program output: {reason}"

/-- The name of an error, as expectation files write it. -/
def kind : RuntimeError → String
  | duplicateDeclaration _ => "DuplicateDeclaration"
  | unknownIdentifier _ => "UnknownIdentifier"
  | indexOutOfRange .. => "ArrayIndexOutOfRange"
  | arityMismatch .. => "ArityMismatch"
  | typeMismatch _ => "TypeMismatch"
  | unknownField .. => "UnknownField"
  | unknownType _ => "UnknownType"
  | undefinedFunction _ => "UndefinedFunction"
  | missingReturn _ => "MissingReturn"
  | divisionByZero => "DivisionByZero"
  | nonConstantBound _ => "NonConstantArrayBound"
  | callDepthExceeded _ => "CallDepthExceeded"
  | output _ => "Output"

end RuntimeError

end SmallCpp
