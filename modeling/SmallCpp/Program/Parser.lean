import SmallCpp.Program.Body

/-!
# Reading programs

Items are read up to the end of file, with recovery after each that cannot be read. A record's
name becomes a type only once its whole definition is read. A source is a program if it has no
lexical error and no item, and no statement inside one, fails.
-/

namespace SmallCpp

namespace Parser

/-- Whether a declared name with a parameter list comes next. -/
def nextIsFunction : Parser Bool := do
  match ← kind, ← secondKind with
  | .identifier _, .symbol .lParen => return true
  | _, _ => return false

/-- A parameter; every array bound has to be written. -/
def param (known : List String) (fuel : Nat) : Parser Param := do
  let (type, start) ← baseType known
  if type.isVoid then
    fail .voidParameter ⟨start, ← lastEnd⟩
  else
    let d ← declarator fuel
    let whole := type.withBounds d.bounds
    let span := ⟨start, d.span.stop⟩
    if d.bounds.any Option.isNone then
      fail (.unboundedParameter d.name whole) span
    else
      return ⟨d.name, whole, d.byRef, span⟩

/-- One or more parameters between commas. -/
def params (known : List String) : Nat → Parser (List Param)
  | 0 => unfinished
  | fuel + 1 => do
    let p ← param known fuel
    if ← accept .comma then
      return p :: (← params known fuel)
    else
      return [p]

/-- Reads a `void` that stands alone between the parentheses of a function. -/
def skipLoneVoid : Parser Unit := do
  if (← kind) = .keyword .void && (← secondKind) = .symbol .rParen then
    let _ ← advance
  else
    return

/-- The parameters between the parentheses; a lone `void` stands for none. -/
def paramList (known : List String) (fuel : Nat) : Parser (List Param) := do
  skipLoneVoid
  if (← kind) = .symbol .rParen then
    return []
  else
    params known fuel

/-- A function whose result type, starting at `start`, is read already. -/
def function (known : List String) (returns : WrittenType) (start fuel : Nat) :
    Parser FunctionDecl := do
  let name ← expectName .declaratorName
  let _ ← advance
  let ps ← paramList known fuel
  let close ← expect .rParen .paramsClose
  if (← kind) = .symbol .semi then
    let semi ← advance
    return ⟨name, ps, returns, none, ⟨start, max semi.span.stop close.span.stop⟩⟩
  else
    let body ← block known fuel
    return ⟨name, ps, returns, some body, ⟨start, max body.span.stop close.span.stop⟩⟩

/-- One or more members of one base type between commas. -/
def members (type : WrittenType) : Nat → Parser (List FieldDecl)
  | 0 => unfinished
  | fuel + 1 => do
    let d ← declarator fuel
    if d.byRef then
      fail .referenceMember d.span
    else
      let t ← peek
      if t.kind = .symbol .eq then
        fail .memberInitializer t.span
      else
        let field := ⟨d.name, type.withBounds d.bounds, d.span⟩
        if ← accept .comma then
          return field :: (← members type fuel)
        else
          return [field]

/-- Whether the token is an access specifier. -/
def isAccess : TokenKind → Bool
  | .keyword .publicWord | .keyword .privateWord | .keyword .protectedWord => true
  | _ => false

/-- The members of a record up to its closing brace. -/
def fields (known : List String) : Nat → Parser (List FieldDecl)
  | 0 => unfinished
  | fuel + 1 => do
    let k ← kind
    if k = .symbol .rBrace || k = .eof then
      return []
    else if k = .symbol .semi then
      let _ ← advance
      fields known fuel
    else if isAccess k then
      let _ ← advance
      let _ ← expect .colon .accessColon
      fields known fuel
    else
      let (type, _) ← baseType known
      if ← nextIsFunction then
        fail .memberFunction (← peek).span
      else if type.isVoid then
        fail .voidField (← peek).span
      else
        let group ← members type fuel
        let _ ← expect .semi .fieldEnd
        return group ++ (← fields known fuel)

/-- A record definition, from its first keyword to its semicolon. -/
def record (known : List String) (fuel : Nat) : Parser RecordDecl := do
  let start := (← advance).span.start
  let name ← expectName .recordName
  let _ ← expect .lBrace .recordOpen
  let fs ← fields known fuel
  let _ ← expect .rBrace .recordClose
  let close ← expect .semi .recordEnd
  return ⟨name, fs, ⟨start, close.span.stop⟩⟩

/-- One item of the source; a declaration of several globals is several items. -/
def item (known : List String) (fuel : Nat) : Parser (List Item) := do
  let k ← kind
  if k = .keyword .classWord || k = .keyword .structWord then
    return [.record (← record known fuel)]
  else
    let (type, start) ← baseType known
    if ← nextIsFunction then
      return [.function (← function known type start fuel)]
    else
      return (← declarations type start fuel).map .global

/-- The record names that items define. -/
def definedNames (items : List Item) : List String :=
  items.filterMap fun
    | .record decl => some decl.name
    | _ => none

/-- The items up to the end of file; those that cannot be read are left out. -/
def items (known : List String) : Nat → Parser (List Item)
  | 0 => unfinished
  | fuel + 1 => do
    if (← kind) = .eof then
      return []
    else if ← accept .semi then
      items known fuel
    else
      match ← recovering (item known fuel) with
      | some group => return group ++ (← items (definedNames group ++ known) fuel)
      | none => items known fuel

end Parser

namespace Program

/-- A bound on the steps that reading the tokens may take. -/
def stepBound (tokens : List Token) : Nat :=
  16 * (tokens.length + 1)

/-- Reads a token list as a program, or reports every syntax error. -/
def ofTokens (tokens : List Token) : Except (List SyntaxError) Program :=
  match Parser.items [] (stepBound tokens) (Cursor.start tokens) with
  | .ok items c => if c.recovered.isEmpty then .ok ⟨items⟩ else .error c.recovered
  | .error e c => .error (c.recovered ++ [e])

/-- Reads a source as a program, or reports every lexical or else every syntax error. -/
def parse (source : String) : Except (List SyntaxError) Program :=
  match scan source with
  | .ok tokens => ofTokens tokens
  | .error errors => .error (errors.map SyntaxError.ofLexError)

end Program

end SmallCpp
