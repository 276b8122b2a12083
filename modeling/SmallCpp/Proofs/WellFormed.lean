import SmallCpp.Proofs.Grammar.Sound
import SmallCpp.Proofs.Parser.Gives

/-!
# Programs that are read are well formed

What reading guarantees of a program: its expressions are derived by the grammar, the variables of
a declaration share a base type, no base type of a variable is `void`, named types are records that
are defined before, every bound of a parameter is written, and the branch before an `else` does not
end in an `if` without one. `S` is a property of the tokens that expressions and names are made of.
-/

namespace SmallCpp

/-- The grammar derives the expression from tokens with the property. -/
def Expr.MadeOf (S : TokenKind → Prop) (e : Expr) : Prop :=
  ∃ w, (∀ k ∈ w, S k) ∧ Derives 0 w e.bare

namespace WrittenType

/-- The type without its array layers. -/
def base : WrittenType → WrittenType
  | array elem _ => elem.base
  | type => type

/-- The bounds of the array layers, outermost first. -/
def dims : WrittenType → List (Option Expr)
  | array elem bound => bound :: elem.dims
  | _ => []

/-- A base type that a declaration may start with: a basic type, or a record that is known. -/
def IsBase (known : List String) : WrittenType → Prop
  | named name => name ∈ known
  | array .. => False
  | _ => True

variable {known : List String}

/-- A type whose innermost element type is not `void` is not `void` itself. -/
theorem isVoid_of_base {type : WrittenType} (h : type.base.isVoid = false) :
    type.isVoid = false := by
  cases type with
  | void => exact h
  | _ => rfl

/-- A type is its base type with its bounds. -/
theorem withBounds_dims (type : WrittenType) : type.base.withBounds type.dims = type := by
  induction type with
  | array elem bound ih => exact congrArg (array · bound) ih
  | _ => rfl

/-- A base type with bounds has that base type. -/
theorem base_withBounds {type : WrittenType} (h : type.IsBase known)
    (bounds : List (Option Expr)) : (type.withBounds bounds).base = type := by
  induction bounds with
  | nil =>
    cases type with
    | array => exact h.elim
    | _ => rfl
  | cons bound bounds ih => exact ih

/-- A base type with bounds has those bounds. -/
theorem dims_withBounds {type : WrittenType} (h : type.IsBase known)
    (bounds : List (Option Expr)) : (type.withBounds bounds).dims = bounds := by
  induction bounds with
  | nil =>
    cases type with
    | array => exact h.elim
    | _ => rfl
  | cons bound bounds ih => exact congrArg (bound :: ·) ih

end WrittenType

namespace Initializer

mutual

/-- The property holds of every expression in the initializer. -/
def Each (P : Expr → Prop) : Initializer → Prop
  | expr e => P e
  | list items _ => EachIn P items

/-- The property holds of every expression in the initializers. -/
def EachIn (P : Expr → Prop) : List Initializer → Prop
  | [] => True
  | i :: is => i.Each P ∧ EachIn P is

end

end Initializer

section WellFormed

variable (S : TokenKind → Prop) (known : List String)

/-- The bounds that are written are expressions. -/
def BoundsWellFormed (bounds : List (Option Expr)) : Prop :=
  ∀ bound ∈ bounds, ∀ e ∈ bound, e.MadeOf S

/-- A base type of a variable: known, and not `void`. -/
def WrittenType.IsVariable (type : WrittenType) : Prop :=
  type.IsBase known ∧ type.isVoid = false

/-- A variable of a declaration with the given base type. -/
structure VarDecl.WellFormed (base : WrittenType) (decl : VarDecl) : Prop where
  type : decl.type.base = base
  name : S (.identifier decl.name)
  bounds : BoundsWellFormed S decl.type.dims
  init : ∀ i ∈ decl.init, i.Each (Expr.MadeOf S)

/-- One or more variables that share a base type. -/
def DeclarationWellFormed (decls : List VarDecl) : Prop :=
  decls ≠ [] ∧ ∃ base : WrittenType, base.IsVariable known ∧ ∀ decl ∈ decls, decl.WellFormed S base

namespace Statement

/-- Whether the statement ends in an `if` without an `else`. -/
def isOpen : Statement → Bool
  | ifThen .. => true
  | ifElse _ _ elseBranch _ => elseBranch.isOpen
  | loop _ body _ => body.isOpen
  | _ => false

mutual

/-- The statement is well formed where the given records are known. -/
def WellFormed : Statement → Prop
  | declare decls _ => DeclarationWellFormed S known decls
  | expr e _ => e.MadeOf S
  | ifThen cond thenBranch _ => cond.MadeOf S ∧ thenBranch.WellFormed
  | ifElse cond thenBranch elseBranch _ =>
    cond.MadeOf S ∧ thenBranch.WellFormed ∧ elseBranch.WellFormed ∧ thenBranch.isOpen = false
  | loop cond body _ => cond.MadeOf S ∧ body.WellFormed
  | ret value _ => ∀ e ∈ value, e.MadeOf S
  | block body _ => AllWellFormed body
  | empty _ => True

/-- The statements are well formed. -/
def AllWellFormed : List Statement → Prop
  | [] => True
  | s :: ss => s.WellFormed ∧ AllWellFormed ss

end

end Statement

/-- A parameter is well formed: its base type is one of a variable and its bounds are written. -/
structure Param.WellFormed (p : Param) : Prop where
  type : p.type.base.IsVariable known
  name : S (.identifier p.name)
  bounds : BoundsWellFormed S p.type.dims
  bounded : none ∉ p.type.dims

/-- A function is well formed; its result may be `void`, but is no array. -/
structure FunctionDecl.WellFormed (decl : FunctionDecl) : Prop where
  returns : decl.returns.IsBase known
  name : S (.identifier decl.name)
  params : ∀ p ∈ decl.params, p.WellFormed S known
  body : ∀ b ∈ decl.body, Statement.AllWellFormed S known b.statements

/-- A member of a record is well formed. -/
structure FieldDecl.WellFormed (f : FieldDecl) : Prop where
  type : f.type.base.IsVariable known
  name : S (.identifier f.name)
  bounds : BoundsWellFormed S f.type.dims

/-- A record is well formed. -/
structure RecordDecl.WellFormed (decl : RecordDecl) : Prop where
  name : S (.identifier decl.name)
  fields : ∀ f ∈ decl.fields, f.WellFormed S known

/-- An item is well formed. -/
def Item.WellFormed : Item → Prop
  | function decl => decl.WellFormed S known
  | record decl => decl.WellFormed S known
  | global decl => ∃ base : WrittenType, base.IsVariable known ∧ decl.WellFormed S base

end WellFormed

/-- The items are well formed, where each record is known to the items after it. -/
def Item.AllWellFormed (S : TokenKind → Prop) : List String → List Item → Prop
  | _, [] => True
  | known, i :: is => i.WellFormed S known ∧ AllWellFormed S (Parser.definedNames [i] ++ known) is

/-- The program is well formed. -/
def Program.WellFormed (S : TokenKind → Prop) (p : Program) : Prop :=
  Item.AllWellFormed S [] p.items

end SmallCpp
