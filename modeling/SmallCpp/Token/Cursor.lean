import SmallCpp.SyntaxError

/-!
# Reading tokens one by one

A `Cursor` is what is left of a token list. It never moves past the end of file and never moves
back. A `Parser` either succeeds or fails with one syntax error, and in both cases says where the
cursor stands: after a failure reading goes on from there, past the next `;` or closing brace
(`recovering`), and the error is kept in the cursor.
-/

namespace SmallCpp

/-- A place in a token list. -/
structure Cursor where
  /-- The tokens still to be read. -/
  rest : List Token
  /-- Where the last token that was read ends. -/
  lastEnd : Nat
  /-- The errors from which reading has recovered, in the order they were met. -/
  recovered : List SyntaxError

namespace Cursor

/-- A cursor before the first token. -/
def start (tokens : List Token) : Cursor :=
  ⟨tokens, 0, []⟩

/-- The next token; after the last one, the end of file. -/
def peek (c : Cursor) : Token :=
  c.rest.headD ⟨.eof, ⟨c.lastEnd, c.lastEnd⟩⟩

/-- The kind of the next token. -/
def kind (c : Cursor) : TokenKind :=
  c.peek.kind

/-- The kind of the token after the next. -/
def secondKind (c : Cursor) : TokenKind :=
  match c.rest with
  | _ :: t :: _ => t.kind
  | _ => .eof

/-- Moves past the next token, unless it is the end of file. -/
def advance (c : Cursor) : Cursor :=
  match c.rest with
  | [] => c
  | t :: ts => if t.kind = .eof then c else { c with rest := ts, lastEnd := t.span.stop }

/-- The tokens after the next `;` or closing brace, and where that token ends; all tokens up to
the end of file are passed over if there is none. -/
def skipped : List Token → Nat → List Token × Nat
  | [], lastEnd => ([], lastEnd)
  | t :: ts, lastEnd =>
    match t.kind with
    | .eof => (t :: ts, lastEnd)
    | .symbol .semi | .symbol .rBrace => (ts, t.span.stop)
    | _ => skipped ts t.span.stop

/-- Keeps an error and moves past the next `;` or closing brace. -/
def recover (c : Cursor) (e : SyntaxError) : Cursor :=
  let (rest, lastEnd) := skipped c.rest c.lastEnd
  ⟨rest, lastEnd, c.recovered ++ [e]⟩

end Cursor

/-- A step of reading: a result or an error, and the cursor after it. -/
abbrev Parser := EStateM SyntaxError Cursor

namespace Parser

/-- Fails with an error at the given place. -/
def fail {α : Type} (cause : SyntaxCause) (span : Span) : Parser α :=
  throw ⟨cause, span⟩

/-- The next token, which stays unread. -/
def peek : Parser Token := do
  return (← get).peek

/-- The kind of the next token, which stays unread. -/
def kind : Parser TokenKind := do
  return (← get).kind

/-- The kind of the token after the next. -/
def secondKind : Parser TokenKind := do
  return (← get).secondKind

/-- Where the last token that was read ends. -/
def lastEnd : Parser Nat := do
  return (← get).lastEnd

/-- Reads the next token. -/
def advance : Parser Token := fun c =>
  .ok c.peek c.advance

/-- Reads the symbol if it is next, and says whether it was. -/
def accept (sign : Symbol) : Parser Bool := do
  if (← kind) = .symbol sign then
    let _ ← advance
    return true
  else
    return false

/-- Fails because something else is next. -/
def unexpected {α : Type} (what : Expected) : Parser α := do
  let t ← peek
  fail (.expected what t.kind) t.span

/-- Reads the symbol, which has to be next. -/
def expect (sign : Symbol) (what : Expected) : Parser Token := do
  if (← kind) = .symbol sign then advance else unexpected what

/-- Reads an identifier, which has to be next. -/
def expectName (what : Expected) : Parser String := do
  match ← kind with
  | .identifier name =>
    let _ ← advance
    return name
  | _ => unexpected what

/-- Gives up on an expression at the next token. -/
def noExpression {α : Type} : Parser α := do
  let t ← peek
  fail (.expectedExpression t.kind) t.span

/-- Gives up at the next token, since no steps are left. -/
def unfinished {α : Type} : Parser α := do
  let t ← peek
  fail .unfinished t.span

/-- Runs a parser; if it fails, keeps the error and moves past the next `;` or closing brace. -/
def recovering {α : Type} (p : Parser α) : Parser (Option α) := fun c =>
  match p c with
  | .ok a c' => .ok (some a) c'
  | .error e c' => .ok none (c'.recover e)

end Parser

end SmallCpp
