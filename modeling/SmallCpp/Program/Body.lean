import SmallCpp.Program.Declarator

/-!
# Reading statements

A statement that cannot be read does not end its block: the error is kept and reading goes on
after the next `;` or closing brace.
-/

namespace SmallCpp

namespace Parser

/-- Whether a statement that starts with this token is a declaration. -/
def startsDeclaration (known : List String) : TokenKind → Bool
  | .keyword .int | .keyword .bool | .keyword .char | .keyword .void => true
  | .identifier name => name ∈ known
  | _ => false

/-- A declaration inside a block. -/
def declareStatement (known : List String) (fuel : Nat) : Parser Statement := do
  let (type, start) ← baseType known
  let decls ← declarations type start fuel
  return .declare decls ⟨start, ← lastEnd⟩

/-- The value that is returned, if there is one. -/
def returnValue? (fuel : Nat) : Parser (Option Expr) := do
  if (← kind) = .symbol .semi then
    return none
  else
    return some (← expression fuel)

/-- A `return`, with or without a value. -/
def returnStatement (fuel : Nat) : Parser Statement := do
  let start := (← advance).span.start
  let value ← returnValue? fuel
  let close ← expect .semi .returnEnd
  return .ret value ⟨start, close.span.stop⟩

/-- An expression and its semicolon. -/
def expressionStatement (fuel : Nat) : Parser Statement := do
  let e ← expression fuel
  let close ← expect .semi .expressionEnd
  return .expr e ⟨e.span.start, close.span.stop⟩

/-- The condition of an `if` or a loop between parentheses. -/
def condition (opening : Expected) (fuel : Nat) : Parser Expr := do
  let _ ← expect .lParen opening
  let e ← expression fuel
  let _ ← expect .rParen .conditionClose
  return e

mutual

/-- A statement. -/
def statement (known : List String) : Nat → Parser Statement
  | 0 => unfinished
  | fuel + 1 => do
    match ← kind with
    | .symbol .lBrace =>
      let b ← block known fuel
      return .block b.statements b.span
    | .keyword .ifWord =>
      let start := (← advance).span.start
      let cond ← condition .ifOpen fuel
      let thenBranch ← statement known fuel
      if (← kind) = .keyword .elseWord then
        let _ ← advance
        let elseBranch ← statement known fuel
        return .ifElse cond thenBranch elseBranch ⟨start, ← lastEnd⟩
      else
        return .ifThen cond thenBranch ⟨start, ← lastEnd⟩
    | .keyword .whileWord =>
      let start := (← advance).span.start
      let cond ← condition .whileOpen fuel
      let body ← statement known fuel
      return .loop cond body ⟨start, ← lastEnd⟩
    | .keyword .returnWord => returnStatement fuel
    | .symbol .semi => return .empty (← advance).span
    | k =>
      if startsDeclaration known k then
        declareStatement known fuel
      else
        expressionStatement fuel

/-- Statements between braces. -/
def block (known : List String) : Nat → Parser Block
  | 0 => unfinished
  | fuel + 1 => do
    let opening ← expect .lBrace .blockOpen
    let body ← statements known fuel
    let close ← expect .rBrace .blockClose
    return ⟨body, ⟨opening.span.start, close.span.stop⟩⟩

/-- The statements up to the closing brace; those that cannot be read are left out. -/
def statements (known : List String) : Nat → Parser (List Statement)
  | 0 => unfinished
  | fuel + 1 => do
    let k ← kind
    if k = .symbol .rBrace || k = .eof then
      return []
    else
      let s ← recovering (statement known fuel)
      return s.toList ++ (← statements known fuel)

end

end Parser

end SmallCpp
