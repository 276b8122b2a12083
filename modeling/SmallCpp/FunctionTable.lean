import SmallCpp.Primitive
import SmallCpp.TypeTable

/-!
# The functions of a program

Every declaration is registered before any body is bound, so a call may come before the definition
of its callee. Declarations of one name must agree on types and on the way of passing; the first
one gives the parameters their names.
-/

namespace SmallCpp

/-- A parameter with its resolved type. -/
structure ParamSignature where
  /-- The parameter's name. -/
  name : String
  /-- The type of the argument. -/
  type : ValueType
  /-- Whether the argument is passed by reference. -/
  byRef : Bool
deriving DecidableEq, Repr, Inhabited

/-- A function's name, parameters and result. -/
structure Signature where
  /-- The function's name. -/
  name : String
  /-- The parameters in order. -/
  params : List ParamSignature
  /-- The type of the result. -/
  returns : ValueType
  /-- Where the declaration stands. -/
  span : Span
deriving DecidableEq, Repr, Inhabited

namespace Signature

/-- Resolves the parameters in order. -/
def resolveParams (types : TypeTable) : List Param → Except RuntimeError (List ParamSignature)
  | [] => .ok []
  | p :: ps => do
    let type ← types.resolve none p.type
    return ⟨p.name, type, p.byRef⟩ :: (← resolveParams types ps)

/-- The signature of a declaration. -/
def resolve (types : TypeTable) (decl : FunctionDecl) : Except RuntimeError Signature := do
  let params ← resolveParams types decl.params
  let returns ← types.resolve none decl.returns
  return ⟨decl.name, params, returns, decl.span⟩

/-- Whether two declarations agree: names of parameters do not count. -/
def agrees (s t : Signature) : Bool :=
  s.returns = t.returns &&
    s.params.map (fun p => (p.type, p.byRef)) = t.params.map (fun p => (p.type, p.byRef))

end Signature

/-- A function that may be called. -/
structure FunctionEntry where
  /-- The signature of the first declaration. -/
  signature : Signature
  /-- The body, if some declaration has one. -/
  body : Option Block
deriving Repr, Inhabited

/-- The functions of a program, in the order of their first declarations. -/
structure FunctionTable where
  /-- One entry for each name. -/
  entries : List FunctionEntry
deriving Repr, Inhabited

namespace FunctionTable

/-- The table without functions. -/
def empty : FunctionTable :=
  ⟨[]⟩

/-- The entry of a name, if there is one. -/
def find? (t : FunctionTable) (name : String) : Option FunctionEntry :=
  t.entries.find? (·.signature.name == name)

/-- The entry of a name. -/
def get (t : FunctionTable) (name : String) : Except RuntimeError FunctionEntry :=
  match t.find? name with
  | some entry => .ok entry
  | none => .error (.unknownIdentifier name)

/-- Registers a declaration, without its body. -/
def register (types : TypeTable) (t : FunctionTable) (decl : FunctionDecl) :
    Except RuntimeError FunctionTable := do
  if (Primitive.ofName? decl.name).isSome then
    .error (.duplicateDeclaration decl.name)
  else
    let signature ← Signature.resolve types decl
    match t.find? decl.name with
    | none => return ⟨t.entries ++ [⟨signature, none⟩]⟩
    | some entry =>
      if entry.signature.agrees signature then
        return t
      else
        .error (.typeMismatch (.signaturesDisagree decl.name))

/-- Gives a registered function its body; a second body is refused. -/
def bind (t : FunctionTable) (decl : FunctionDecl) : Except RuntimeError FunctionTable :=
  match decl.body with
  | none => .ok t
  | some body => do
    let entry ← t.get decl.name
    if entry.body.isSome then
      .error (.duplicateDeclaration decl.name)
    else
      return ⟨t.entries.map fun e =>
        if e.signature.name == decl.name then { e with body := some body } else e⟩

/-- The table of a program's functions. -/
def build (types : TypeTable) (p : Program) : Except RuntimeError FunctionTable := do
  let registered ← p.functions.foldlM (register types) empty
  p.functions.foldlM bind registered

end FunctionTable

end SmallCpp
