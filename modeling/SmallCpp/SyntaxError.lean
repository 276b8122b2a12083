import SmallCpp.Diagnostic
import SmallCpp.Program
import SmallCpp.Token.Scan

/-!
# Syntax errors

Each error has a cause and a place. The wording of causes is in `SyntaxCause.message`; the marked
part of the source repeats the message unless `SyntaxCause.label` says otherwise.
-/

namespace SmallCpp

/-- What the grammar asks for at a fixed place. -/
inductive Expected
  | recordName | recordOpen | accessColon | fieldEnd | recordClose | recordEnd
  | paramsClose
  | declaratorAmp | declaratorName | declaratorClose | referenceName
  | boundClose | declarationEnd | initializersClose
  | blockOpen | blockClose
  | ifOpen | whileOpen | conditionClose | returnEnd | expressionEnd
  | indexClose | fieldName | argumentsClose | groupClose
deriving DecidableEq, Repr

/-- The wording of what is asked for. -/
def Expected.message : Expected → String
  | recordName => "expected record name"
  | recordOpen => "expected `\x7b` after record name"
  | accessColon => "expected `:` after access specifier"
  | fieldEnd => "expected `;` after field declaration"
  | recordClose => "expected `\x7d` to close record"
  | recordEnd => "expected `;` after record definition"
  | paramsClose => "expected `)` after parameters"
  | declaratorAmp => "expected `&` in parenthesized declarator"
  | declaratorName => "expected declarator name"
  | declaratorClose => "expected `)` after declarator name"
  | referenceName => "expected name after `&`"
  | boundClose => "expected `]` after array bound"
  | declarationEnd => "expected `;` after declaration"
  | initializersClose => "expected `\x7d` to close initializer list"
  | blockOpen => "expected `\x7b` to open block"
  | blockClose => "expected `\x7d` to close block"
  | ifOpen => "expected `(` after `if`"
  | whileOpen => "expected `(` after `while`"
  | conditionClose => "expected `)` after condition"
  | returnEnd => "expected `;` after return"
  | expressionEnd => "expected `;` after expression"
  | indexClose => "expected `]` after index"
  | fieldName => "expected field name after `.`"
  | argumentsClose => "expected `)` after arguments"
  | groupClose => "expected `)` to close expression"

/-- Why a source is not a program. -/
inductive SyntaxCause
  | lexical (cause : LexCause)
  | expected (what : Expected) (found : TokenKind)
  | expectedType (found : TokenKind)
  | expectedExpression (found : TokenKind)
  | unknownType (name : String)
  | memberFunction
  | voidField
  | referenceMember
  | memberInitializer
  | voidParameter
  | unboundedParameter (name : String) (type : WrittenType)
  | voidVariable
  | referenceArray (name : String)
  | notAssignable
  | notSteppable
  | notCallable
  /-- The bound on the steps was used up. -/
  | unfinished
deriving Repr

namespace SyntaxCause

/-- The wording of a syntax error. -/
def message : SyntaxCause → String
  | lexical cause => cause.message
  | expected what _ => what.message
  | expectedType found => "expected a type, found " ++ found.describe
  | expectedExpression found => "expected an expression, found " ++ found.describe
  | unknownType name => s!"unknown type `{name}`"
  | memberFunction => "member functions are not supported"
  | voidField => "fields cannot have type `void`"
  | referenceMember => "reference members are not supported"
  | memberInitializer => "default member initializers are not supported"
  | voidParameter => "parameters cannot have type `void`"
  | unboundedParameter name type =>
    s!"parameter `{name}` of type `{type.text}` needs an array bound"
  | voidVariable => "variables cannot have type `void`"
  | referenceArray _ => "arrays of references are not allowed"
  | notAssignable => "left side of assignment is not assignable"
  | notSteppable => "increment and decrement need an assignable operand"
  | notCallable => "only named functions can be called"
  | unfinished => "the reading did not end"

/-- The text at the marked part of the source. -/
def label : SyntaxCause → String
  | expected _ found => "found " ++ found.describe
  | unboundedParameter .. => "array length missing"
  | notAssignable => "cannot assign to this expression"
  | cause => cause.message

/-- How the error may be mended. -/
def help : SyntaxCause → Option String
  | unknownType _ => some "record types must be defined before they are used"
  | memberFunction => some "records hold data members only"
  | unboundedParameter .. => some "write the length, as in `int a[5]`"
  | referenceArray name => some s!"write `(&{name})[N]` to declare a reference to an array"
  | notAssignable => some "assign to a variable, an array element or a field"
  | _ => none

end SyntaxCause

/-- A syntax error and where it stands. -/
structure SyntaxError where
  /-- What is wrong. -/
  cause : SyntaxCause
  /-- The faulty part of the source. -/
  span : Span
deriving Repr

namespace SyntaxError

/-- What is shown of a syntax error. -/
def diagnostic (e : SyntaxError) : Diagnostic :=
  ⟨e.cause.message, e.cause.label, e.span, e.cause.help⟩

/-- A lexical error as a syntax error. -/
def ofLexError (e : LexError) : SyntaxError :=
  ⟨.lexical e.cause, e.span⟩

/-- One line about all syntax errors of a source: the only error, or how many there are. -/
def summary : List SyntaxError → String
  | [e] => e.cause.message
  | errors => s!"{errors.length} syntax errors"

end SyntaxError

end SmallCpp
