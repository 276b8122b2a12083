import SmallCpp.Diagnostic
import SmallCpp.Primitive
import SmallCpp.Program

/-!
# Checking calls before a run

Some calls can never succeed: those of a function that is declared nowhere, those with the wrong
number of arguments, and those that pass a temporary where a reference is asked for. `callErrors`
reports them in source order, an argument's errors before those of the call it belongs to, and
first of all a missing entry function. The bounds of array types are not looked at.
-/

namespace SmallCpp

/-- Why a call, or the entry function, is refused. -/
inductive CallCause
  | entryUndefined (entry : String)
  | entryMissing (entry : String)
  | primitiveArity (name : String) (received : Nat)
  | unknownFunction (name : String)
  | arity (name : String) (expected received : Nat)
  | temporary (callee : String)
deriving DecidableEq, Repr

namespace CallCause

/-- The short code that stands before the message. -/
def code : CallCause → String
  | entryUndefined _ | entryMissing _ => "E0ENTRY"
  | primitiveArity .. | arity .. => "E0ARITY"
  | unknownFunction _ => "E0FN"
  | temporary _ => "E0REF"

/-- The wording of a call error, without its code. -/
def message : CallCause → String
  | entryUndefined entry => s!"entry function `{entry}` is declared but never defined"
  | entryMissing entry => s!"no entry function `{entry}`"
  | primitiveArity name received => s!"`{name}` takes 1 argument but {received} were supplied"
  | unknownFunction name => s!"unknown function `{name}`"
  | arity name expected received =>
    let ending := if expected = 1 then "" else "s"
    s!"`{name}` takes {expected} argument{ending} but {received} were supplied"
  | temporary _ => "cannot bind a reference parameter to a temporary value"

/-- The text at the marked part of the source. -/
def label : CallCause → String
  | entryMissing _ => "program ends here"
  | temporary _ => "not a variable, element or field"
  | cause => cause.message

/-- How the error may be mended. -/
def help : CallCause → Option String
  | entryMissing entry => some s!"define `int {entry}()`"
  | unknownFunction _ => some "functions must be declared somewhere in the file"
  | temporary callee => some s!"pass a variable to `{callee}`"
  | _ => none

end CallCause

/-- A call error and where it stands. -/
structure CallError where
  /-- What is wrong. -/
  cause : CallCause
  /-- The faulty part of the source. -/
  span : Span
deriving DecidableEq, Repr

/-- What is shown of a call error: the message carries the code, the label does not. -/
def CallError.diagnostic (e : CallError) : Diagnostic :=
  ⟨s!"[{e.cause.code}] {e.cause.message}", e.cause.label, e.span, e.cause.help⟩

/-- What a call needs to know of a function. -/
structure CallShape where
  /-- Which parameters are references, in order. -/
  byRef : List Bool
  /-- Whether some declaration has a body. -/
  defined : Bool
  /-- Where the first declaration stands. -/
  span : Span
deriving DecidableEq, Repr

namespace Program

/-- The shape of a function, as its first declaration gives it. -/
def callShape? (p : Program) (name : String) : Option CallShape :=
  (p.functions.find? (·.name == name)).map fun first =>
    { byRef := first.params.map (·.byRef)
      defined := p.functions.any fun decl => decl.name == name && decl.body.isSome
      span := first.span }

/-- The errors of the call itself, its arguments apart. -/
def errorsOfCall (p : Program) (callee : String) (calleeSpan : Span) (args : List Expr)
    (span : Span) : List CallError :=
  match Primitive.ofName? callee with
  | some _ =>
    if args.length = 1 then [] else [⟨.primitiveArity callee args.length, span⟩]
  | none =>
    match p.callShape? callee with
    | none => [⟨.unknownFunction callee, calleeSpan⟩]
    | some shape =>
      if shape.byRef.length = args.length then
        (shape.byRef.zip args).filterMap fun (byRef, arg) =>
          if byRef && !arg.isPlace then some ⟨.temporary callee, arg.span⟩ else none
      else
        [⟨.arity callee shape.byRef.length args.length, span⟩]

mutual

/-- The call errors inside an expression. -/
def errorsInExpr (p : Program) : Expr → List CallError
  | .literal .. | .name .. => []
  | .binary _ left right _ => p.errorsInExpr left ++ p.errorsInExpr right
  | .unary _ operand _ => p.errorsInExpr operand
  | .assign _ target value _ => p.errorsInExpr target ++ p.errorsInExpr value
  | .step _ _ target _ => p.errorsInExpr target
  | .call callee calleeSpan args span =>
    p.errorsInExprs args ++ p.errorsOfCall callee calleeSpan args span
  | .index base subscript _ => p.errorsInExpr base ++ p.errorsInExpr subscript
  | .field base _ _ => p.errorsInExpr base

/-- The call errors inside several expressions. -/
def errorsInExprs (p : Program) : List Expr → List CallError
  | [] => []
  | e :: es => p.errorsInExpr e ++ p.errorsInExprs es

end

mutual

/-- The call errors inside an initializer. -/
def errorsInInit (p : Program) : Initializer → List CallError
  | .expr e => p.errorsInExpr e
  | .list items _ => p.errorsInInits items

/-- The call errors inside several initializers. -/
def errorsInInits (p : Program) : List Initializer → List CallError
  | [] => []
  | i :: is => p.errorsInInit i ++ p.errorsInInits is

end

/-- The call errors inside a declared variable's initializer. -/
def errorsInDecl (p : Program) (decl : VarDecl) : List CallError :=
  match decl.init with
  | none => []
  | some init => p.errorsInInit init

mutual

/-- The call errors inside a statement. -/
def errorsInStatement (p : Program) : Statement → List CallError
  | .declare decls _ => decls.flatMap p.errorsInDecl
  | .expr e _ => p.errorsInExpr e
  | .ifThen cond thenBranch _ => p.errorsInExpr cond ++ p.errorsInStatement thenBranch
  | .ifElse cond thenBranch elseBranch _ =>
    p.errorsInExpr cond ++ p.errorsInStatement thenBranch ++ p.errorsInStatement elseBranch
  | .loop cond body _ => p.errorsInExpr cond ++ p.errorsInStatement body
  | .ret (some e) _ => p.errorsInExpr e
  | .ret none _ => []
  | .block body _ => p.errorsInStatements body
  | .empty _ => []

/-- The call errors inside several statements. -/
def errorsInStatements (p : Program) : List Statement → List CallError
  | [] => []
  | s :: ss => p.errorsInStatement s ++ p.errorsInStatements ss

end

/-- The call errors inside an item. -/
def errorsInItem (p : Program) : Item → List CallError
  | .function decl =>
    match decl.body with
    | some body => p.errorsInStatements body.statements
    | none => []
  | .global decl => p.errorsInDecl decl
  | .record _ => []

/-- The error of the entry function, if it is missing or has no body. -/
def entryErrors (p : Program) (entry : String) : List CallError :=
  match p.callShape? entry with
  | some shape => if shape.defined then [] else [⟨.entryUndefined entry, shape.span⟩]
  | none => [⟨.entryMissing entry, (p.items.getLast?.map Item.span).getD ⟨0, 0⟩⟩]

/-- All call errors of a program that is to be run from the given entry function. -/
def callErrors (p : Program) (entry : String) : List CallError :=
  p.entryErrors entry ++ p.items.flatMap p.errorsInItem

end Program

end SmallCpp
