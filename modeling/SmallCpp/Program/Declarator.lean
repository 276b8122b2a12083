import SmallCpp.Expr.Parser

/-!
# Reading types, declarators and initializers

A declaration names a base type once and then any number of declarators, each of which may add a
reference mark, array bounds and an initializer. An identifier is a type only if it names a record
that is already defined; `known` holds those names.
-/

namespace SmallCpp

namespace Parser

/-- A base type, with the offset at which it starts. -/
def baseType (known : List String) : Parser (WrittenType × Nat) := do
  let t ← peek
  let found (type : WrittenType) : Parser (WrittenType × Nat) := do
    let _ ← advance
    return (type, t.span.start)
  match t.kind with
  | .keyword .int => found .int
  | .keyword .bool => found .bool
  | .keyword .char => found .char
  | .keyword .void => found .void
  | .identifier name =>
    if name ∈ known then found (.named name) else fail (.unknownType name) t.span
  | k => fail (.expectedType k) t.span

/-- A declared name with what is written around it. -/
structure Declarator where
  /-- The declared name. -/
  name : String
  /-- Whether it is marked as a reference. -/
  byRef : Bool
  /-- The array bounds, outermost first. -/
  bounds : List (Option Expr)
  /-- Where the declarator stands. -/
  span : Span

/-- The bounds that follow a declared name; `bare` marks a reference without parentheses, which
takes none. -/
def bounds (name : String) (bare : Bool) : Nat → Parser (List (Option Expr))
  | 0 => unfinished
  | fuel + 1 => do
    let t ← peek
    if t.kind = .symbol .lBracket then
      let _ ← advance
      if bare then
        fail (.referenceArray name) t.span
      else if ← accept .rBracket then
        return none :: (← bounds name bare fuel)
      else
        let bound ← expression fuel
        let _ ← expect .rBracket .boundClose
        return some bound :: (← bounds name bare fuel)
    else
      return []

/-- A declared name: how it is marked (by reference, and whether without parentheses). -/
def declaredName : Parser (String × Bool × Bool) := do
  if ← accept .lParen then
    let _ ← expect .amp .declaratorAmp
    let name ← expectName .declaratorName
    let _ ← expect .rParen .declaratorClose
    return (name, true, false)
  else if ← accept .amp then
    return (← expectName .referenceName, true, true)
  else
    return (← expectName .declaratorName, false, false)

/-- A declarator: `x`, `&x`, `x[2][3]`, `x[]` or `(&x)[5]`. -/
def declarator (fuel : Nat) : Parser Declarator := do
  let start := (← peek).span.start
  let (name, byRef, bare) ← declaredName
  let dims ← bounds name bare fuel
  return ⟨name, byRef, dims, ⟨start, ← lastEnd⟩⟩

mutual

/-- An expression, or a list of initializers between braces. -/
def initializer : Nat → Parser Initializer
  | 0 => unfinished
  | fuel + 1 => do
    let t ← peek
    if t.kind = .symbol .lBrace then
      let _ ← advance
      let items ← initializers fuel
      let close ← expect .rBrace .initializersClose
      return .list items ⟨t.span.start, close.span.stop⟩
    else
      return .expr (← expression fuel)

/-- Initializers between commas, up to the closing brace; a comma may stand after the last. -/
def initializers : Nat → Parser (List Initializer)
  | 0 => unfinished
  | fuel + 1 => do
    if (← kind) = .symbol .rBrace then
      return []
    else
      let item ← initializer fuel
      if ← accept .comma then
        return item :: (← initializers fuel)
      else
        return [item]

end

/-- The initializer after an equals sign, if there is one. -/
def initializer? (fuel : Nat) : Parser (Option Initializer) := do
  if ← accept .eq then
    return some (← initializer fuel)
  else
    return none

/-- One declared variable of the given base type. -/
def varDecl (type : WrittenType) (fuel : Nat) : Parser VarDecl := do
  let d ← declarator fuel
  let init ← initializer? fuel
  return ⟨d.name, type.withBounds d.bounds, d.byRef, init, ⟨d.span.start, ← lastEnd⟩⟩

/-- One or more declared variables between commas. -/
def varDecls (type : WrittenType) : Nat → Parser (List VarDecl)
  | 0 => unfinished
  | fuel + 1 => do
    let decl ← varDecl type fuel
    if ← accept .comma then
      return decl :: (← varDecls type fuel)
    else
      return [decl]

/-- The variables of a declaration whose base type, starting at `start`, is read already. -/
def declarations (type : WrittenType) (start fuel : Nat) : Parser (List VarDecl) := do
  if type.isVoid then
    fail .voidVariable ⟨start, ← lastEnd⟩
  else
    let decls ← varDecls type fuel
    let _ ← expect .semi .declarationEnd
    return decls

end Parser

end SmallCpp
