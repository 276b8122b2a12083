import SmallCpp.Text.Digits
import SmallCpp.Token

/-!
# From text to tokens

The source is cut into pieces: blanks and comments, tokens, and faulty pieces that spell no token.
`Piece.first` looks at the text and says what its first piece is and how far it reaches;
`pieces` cuts the whole text, so that the pieces put end to end are the source. `scan` returns the
tokens, closed by the end of file, or every lexical error if there is one.
-/

namespace SmallCpp

/-- Why a piece of text spells no token. -/
inductive LexCause
  | unterminatedComment
  | integerTooLarge (digits : String)
  | wideCharacter (c : Char)
  | malformedCharacter
  | unexpected (c : Char)
deriving DecidableEq, Repr

/-- The wording of a lexical error. -/
def LexCause.message : LexCause → String
  | unterminatedComment => "unterminated block comment"
  | integerTooLarge digits => s!"integer literal `{digits}` does not fit in 64 bits"
  | wideCharacter c => "character " ++ Text.quotedChar c ++ " does not fit in a `char`"
  | malformedCharacter => "malformed character literal"
  | unexpected c => s!"unexpected character `{c}`"

/-- A lexical error and where it stands. -/
structure LexError where
  /-- What is wrong. -/
  cause : LexCause
  /-- The faulty text. -/
  span : Span
deriving DecidableEq, Repr

/-- What a piece of the source is. -/
inductive Piece
  /-- White space or a comment. -/
  | blank
  | token (kind : TokenKind)
  | faulty (cause : LexCause)
deriving DecidableEq, Repr

namespace Piece

/-- Space, tab, carriage return and line feed separate tokens. -/
def isBlank (c : Char) : Bool :=
  c = ' ' || c = '\t' || c = '\r' || c = '\n'

/-- The characters that may start a word. -/
def startsWord (c : Char) : Bool :=
  c.isAlpha || c = '_'

/-- The characters that may continue a word. -/
def continuesWord (c : Char) : Bool :=
  c.isAlphanum || c = '_'

/-- How many characters a block comment's text takes, its closing mark included. -/
def commentLength? : List Char → Option Nat
  | '*' :: '/' :: _ => some 2
  | _ :: cs => (commentLength? cs).map (· + 1)
  | [] => none

/-- The character that a letter after a backslash stands for. -/
def escape? : Char → Option Char
  | 'n' => some '\n'
  | 't' => some '\t'
  | 'r' => some '\r'
  | '0' => some '\x00'
  | '\\' => some '\\'
  | '\'' => some '\''
  | '"' => some '"'
  | _ => none

/-- An integer literal, if its value fits in 64 bits with sign. -/
def ofDigits (digits : List Char) : Piece :=
  let n := Text.decimal digits
  if n < Nat.pow 2 63 then token (.integer (Int64.ofNat n))
  else faulty (.integerTooLarge (String.ofList digits))

/-- A keyword or an identifier. -/
def ofWord (word : String) : Piece :=
  match Keyword.ofText? word with
  | some k => token (.keyword k)
  | none => token (.identifier word)

/-- A character literal; a `char` holds ASCII only. -/
def ofChar (c : Char) : Piece :=
  if c.toNat < 128 then token (.character (UInt8.ofNat c.toNat)) else faulty (.wideCharacter c)

/-- The piece that starts with a single quote, given the text after the quote. -/
def quotedFirst : List Char → Piece × Nat
  | '\\' :: e :: '\'' :: _ =>
    match escape? e with
    | some c => (ofChar c, 3)
    | none => (faulty .malformedCharacter, 0)
  | c :: '\'' :: _ =>
    if c = '\\' || c = '\'' || c = '\n' then (faulty .malformedCharacter, 0) else (ofChar c, 2)
  | _ => (faulty .malformedCharacter, 0)

/-- The piece that starts with none of a blank, comment, digit, quote or letter. -/
def symbolFirst (c : Char) (cs : List Char) : Piece × Nat :=
  match Symbol.leading? (c :: cs) with
  | some s => (token (.symbol s), s.text.length - 1)
  | none => (faulty (.unexpected c), 0)

/-- The first piece of the text `c :: cs`, with the number of characters that it takes after
`c`. -/
def first (c : Char) (cs : List Char) : Piece × Nat :=
  if isBlank c then (blank, 0)
  else if c = '/' && cs.head? = some '/' then (blank, (cs.takeWhile (· ≠ '\n')).length)
  else if c = '/' && cs.head? = some '*' then
    match commentLength? cs.tail with
    | some n => (blank, n + 1)
    | none => (faulty .unterminatedComment, cs.length)
  else if c.isDigit then
    let more := cs.takeWhile Char.isDigit
    (ofDigits (c :: more), more.length)
  else if c = '\'' then quotedFirst cs
  else if startsWord c then
    let more := cs.takeWhile continuesWord
    (ofWord (String.ofList (c :: more)), more.length)
  else symbolFirst c cs

end Piece

/-- The number of bytes that a text takes in UTF-8. -/
def byteLength (cs : List Char) : Nat :=
  cs.foldr (fun c n => c.utf8Size + n) 0

/-- The pieces of a text that stands at byte `pos`, each with its span. -/
def pieces (pos : Nat) : List Char → List (Piece × Span)
  | [] => []
  | c :: cs =>
    let (piece, n) := Piece.first c cs
    let stop := pos + byteLength (c :: cs.take n)
    (piece, ⟨pos, stop⟩) :: pieces stop (cs.drop n)
termination_by cs => cs.length
decreasing_by
  simp only [List.length_drop, List.length_cons]
  omega

/-- The tokens among the pieces of a source of `size` bytes, closed by the end of file. -/
def tokensOf (size : Nat) (ps : List (Piece × Span)) : List Token :=
  ps.filterMap (fun
    | (.token kind, span) => some ⟨kind, span⟩
    | _ => none) ++ [⟨.eof, ⟨size, size⟩⟩]

/-- The faults among the pieces. -/
def lexErrorsOf (ps : List (Piece × Span)) : List LexError :=
  ps.filterMap fun
    | (.faulty cause, span) => some ⟨cause, span⟩
    | _ => none

/-- Cuts a source into tokens, or reports every faulty piece. -/
def scan (source : String) : Except (List LexError) (List Token) :=
  let ps := pieces 0 source.toList
  match lexErrorsOf ps with
  | [] => .ok (tokensOf (byteLength source.toList) ps)
  | errors => .error errors

end SmallCpp
