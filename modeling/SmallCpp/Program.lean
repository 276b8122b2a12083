import SmallCpp.Expr

/-!
# Programs

A program is a list of items: record definitions, function declarations and global variables.
Types are kept as written: the bound of an array is an expression, evaluated only when the program
runs.
-/

namespace SmallCpp

/-- A type as written in the source. -/
inductive WrittenType
  | int | bool | char | void
  | named (name : String)
  /-- An array; the bound is absent in `[]`, where an initializer gives the length. -/
  | array (elem : WrittenType) (bound : Option Expr)
deriving Repr, Inhabited

namespace WrittenType

/-- The type as messages name it; bounds are left out. -/
def text : WrittenType → String
  | int => "int"
  | bool => "bool"
  | char => "char"
  | void => "void"
  | named name => name
  | array elem _ => elem.text ++ "[]"

/-- Whether the type is `void` itself. -/
def isVoid : WrittenType → Bool
  | void => true
  | _ => false

/-- Wraps a type in one array layer per dimension, the first dimension outermost. -/
def withBounds (base : WrittenType) (bounds : List (Option Expr)) : WrittenType :=
  bounds.foldr (fun bound elem => array elem bound) base

end WrittenType

/-- What a variable starts with. -/
inductive Initializer
  | expr (value : Expr)
  | list (items : List Initializer) (span : Span)
deriving Repr, Inhabited

/-- A declared variable. -/
structure VarDecl where
  /-- The variable's name. -/
  name : String
  /-- Its type as written. -/
  type : WrittenType
  /-- Whether it is a reference. -/
  byRef : Bool
  /-- What it starts with, if written. -/
  init : Option Initializer
  /-- From the declarator to the end of the initializer. -/
  span : Span
deriving Repr, Inhabited

/-- A statement. -/
inductive Statement
  | declare (decls : List VarDecl) (span : Span)
  | expr (value : Expr) (span : Span)
  | ifThen (condition : Expr) (thenBranch : Statement) (span : Span)
  | ifElse (condition : Expr) (thenBranch elseBranch : Statement) (span : Span)
  | loop (condition : Expr) (body : Statement) (span : Span)
  | ret (value : Option Expr) (span : Span)
  | block (body : List Statement) (span : Span)
  | empty (span : Span)
deriving Repr, Inhabited

/-- Where the statement stands. -/
def Statement.span : Statement → Span
  | declare _ s | expr _ s | ifThen _ _ s | ifElse _ _ _ s | loop _ _ s | ret _ s
  | block _ s | empty s => s

/-- Statements between braces. -/
structure Block where
  /-- The statements in order. -/
  statements : List Statement
  /-- From brace to brace. -/
  span : Span
deriving Repr, Inhabited

/-- A parameter of a function. -/
structure Param where
  /-- The parameter's name. -/
  name : String
  /-- Its type as written. -/
  type : WrittenType
  /-- Whether the argument is passed by reference. -/
  byRef : Bool
  /-- From the type to the end of the declarator. -/
  span : Span
deriving Repr, Inhabited

/-- A function prototype, or with a body a definition. -/
structure FunctionDecl where
  /-- The function's name. -/
  name : String
  /-- The parameters in order. -/
  params : List Param
  /-- The type of the result as written. -/
  returns : WrittenType
  /-- The body, absent in a prototype. -/
  body : Option Block
  /-- From the type to the end of the body or the semicolon. -/
  span : Span
deriving Repr, Inhabited

/-- A data member of a record. -/
structure FieldDecl where
  /-- The member's name. -/
  name : String
  /-- Its type as written. -/
  type : WrittenType
  /-- The declarator. -/
  span : Span
deriving Repr, Inhabited

/-- A record definition. -/
structure RecordDecl where
  /-- The record's name. -/
  name : String
  /-- The members in order. -/
  fields : List FieldDecl
  /-- From `class` or `struct` to the semicolon. -/
  span : Span
deriving Repr, Inhabited

/-- A top-level declaration. -/
inductive Item
  | function (decl : FunctionDecl)
  | record (decl : RecordDecl)
  | global (decl : VarDecl)
deriving Repr, Inhabited

/-- Where the item stands. -/
def Item.span : Item → Span
  | function decl => decl.span
  | record decl => decl.span
  | global decl => decl.span

/-- A whole source file. -/
structure Program where
  /-- The items in source order. -/
  items : List Item
deriving Repr, Inhabited

namespace Program

/-- The function declarations in source order, prototypes included. -/
def functions (p : Program) : List FunctionDecl :=
  p.items.filterMap fun
    | .function decl => some decl
    | _ => none

/-- The record definitions in source order. -/
def records (p : Program) : List RecordDecl :=
  p.items.filterMap fun
    | .record decl => some decl
    | _ => none

/-- The global variables in source order. -/
def globals (p : Program) : List VarDecl :=
  p.items.filterMap fun
    | .global decl => some decl
    | _ => none

end Program

end SmallCpp
