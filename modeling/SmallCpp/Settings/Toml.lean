import SmallCpp.Text.Digits

/-!
# Reading a settings file line by line

A settings file is written in a part of TOML: comments, table headers, and keys with a value, which
is a string, an integer, or a table of such values between braces. No setting takes another kind of
value, so none is read. Each line stands for itself.
-/

namespace SmallCpp.Toml

/-- A value without parts. -/
inductive Scalar
  | text (s : String)
  | integer (n : Int)
deriving DecidableEq, Repr

/-- A key: one or more names. -/
abbrev Key := List String

/-- The value of a key. -/
inductive Value
  | scalar (s : Scalar)
  | table (entries : List (Key × Scalar))
deriving DecidableEq, Repr

/-- What a line says. -/
inductive Line
  | nothing
  | header (key : Key)
  | entry (key : Key) (value : Value)
deriving DecidableEq, Repr

/-- A reader takes a part off the front of a text, or refuses it. -/
abbrev Reader (α : Type) := List Char → Option (α × List Char)

/-- Whether a character may stand in a comment or a string. -/
def isPlain (c : Char) : Bool :=
  c = '\t' || (0x20 ≤ c.toNat && c.toNat ≠ 0x7F)

/-- The text after spaces and tabs. -/
def skipSpace (cs : List Char) : List Char :=
  cs.dropWhile fun c => c = ' ' || c = '\t'

/-- The character with the code point that hexadecimal digits spell. -/
def scalarOf? (digits : List Char) : Option Char := do
  let n ← Text.number? 16 digits
  if n.isValidChar then some (Char.ofNat n) else none

/-- The rest of a string between double quotes. -/
def basicRest : Reader (List Char)
  | '"' :: cs => some ([], cs)
  | '\\' :: 'u' :: a :: b :: c :: d :: cs => do
    let x ← scalarOf? [a, b, c, d]
    let (xs, rest) ← basicRest cs
    return (x :: xs, rest)
  | '\\' :: 'U' :: a :: b :: c :: d :: e :: f :: g :: h :: cs => do
    let x ← scalarOf? [a, b, c, d, e, f, g, h]
    let (xs, rest) ← basicRest cs
    return (x :: xs, rest)
  | '\\' :: e :: cs => do
    let x ← match e with
      | 'b' => some '\x08'
      | 't' => some '\t'
      | 'n' => some '\n'
      | 'f' => some '\x0c'
      | 'r' => some '\r'
      | '"' => some '"'
      | '\\' => some '\\'
      | _ => none
    let (xs, rest) ← basicRest cs
    return (x :: xs, rest)
  | c :: cs =>
    if isPlain c && c ≠ '\\' then do
      let (xs, rest) ← basicRest cs
      return (c :: xs, rest)
    else
      none
  | [] => none

/-- The rest of a string between single quotes, in which nothing is escaped. -/
def literalRest : Reader (List Char)
  | '\'' :: cs => some ([], cs)
  | c :: cs =>
    if isPlain c then do
      let (xs, rest) ← literalRest cs
      return (c :: xs, rest)
    else
      none
  | [] => none

/-- A string between quotes of either kind. -/
def quoted : Reader String
  | '"' :: cs => (basicRest cs).map fun (xs, rest) => (String.ofList xs, rest)
  | '\'' :: cs => (literalRest cs).map fun (xs, rest) => (String.ofList xs, rest)
  | _ => none

/-- Whether a character may stand in a name without quotes. -/
def isBare (c : Char) : Bool :=
  c.isAlphanum || c = '_' || c = '-'

/-- One name of a key. -/
def name : Reader String := fun cs =>
  match quoted cs with
  | some found => some found
  | none =>
    match cs.span isBare with
    | ([], _) => none
    | (word, rest) => some (String.ofList word, rest)

/-- The names of a key, between dots. -/
def keyWith : Nat → Reader Key
  | 0, _ => none
  | fuel + 1, cs => do
    let (first, rest) ← name (skipSpace cs)
    match skipSpace rest with
    | '.' :: more =>
      let (others, rest') ← keyWith fuel more
      return (first :: others, rest')
    | rest' => return ([first], rest')

/-- A key and the blanks after it. -/
def key : Reader Key := fun cs =>
  keyWith cs.length cs

/-- Digits with single underscores between them. -/
def separated : List Char → Option (List Char)
  | [] | ['_'] => none
  | [d] => some [d]
  | d :: '_' :: e :: ds => if d = '_' || e = '_' then none else (separated (e :: ds)).map (d :: ·)
  | d :: e :: ds => if d = '_' then none else (separated (e :: ds)).map (d :: ·)

/-- A number below the limit in the given base. -/
def bounded? (base limit : Nat) (digits : List Char) : Option Nat := do
  let n ← Text.number? base (← separated digits)
  if n < limit then some n else none

/-- A decimal number without sign; only zero itself starts with a zero. -/
def decimal? (limit : Nat) : List Char → Option Nat
  | '0' :: _ :: _ => none
  | digits => bounded? 10 limit digits

/-- The integer that a word spells, within 64 bits. -/
def integer? : List Char → Option Int
  | '0' :: 'x' :: ds => (bounded? 16 (Nat.pow 2 63) ds).map Int.ofNat
  | '0' :: 'o' :: ds => (bounded? 8 (Nat.pow 2 63) ds).map Int.ofNat
  | '0' :: 'b' :: ds => (bounded? 2 (Nat.pow 2 63) ds).map Int.ofNat
  | '+' :: ds => (decimal? (Nat.pow 2 63) ds).map Int.ofNat
  | '-' :: ds => (decimal? (Nat.pow 2 63 + 1) ds).map fun n => -Int.ofNat n
  | ds => (decimal? (Nat.pow 2 63) ds).map Int.ofNat

/-- Whether a character may stand in a value without quotes. -/
def isWord (c : Char) : Bool :=
  isBare c || c = '+' || c = '.' || c = ':'

/-- A string or an integer. -/
def scalar : Reader Scalar := fun cs =>
  match quoted cs with
  | some (s, rest) => some (.text s, rest)
  | none =>
    let (word, rest) := cs.span isWord
    (integer? word).map fun n => (.integer n, rest)

/-- A key, an equals sign and what the reader takes. -/
def assigned {α : Type} (value : Reader α) : Reader (Key × α) := fun cs => do
  let (k, rest) ← key cs
  match rest with
  | '=' :: more =>
    let (v, rest') ← value (skipSpace more)
    return ((k, v), skipSpace rest')
  | _ => none

/-- Entries between commas, and the closing brace. -/
def entriesWith : Nat → Reader (List (Key × Scalar))
  | 0, _ => none
  | fuel + 1, cs => do
    let (entry, rest) ← assigned scalar cs
    match rest with
    | ',' :: more =>
      let (others, rest') ← entriesWith fuel more
      return (entry :: others, rest')
    | '\x7d' :: rest' => return ([entry], rest')
    | _ => none

/-- The entries of a table after its opening brace. -/
def tableRest : Reader (List (Key × Scalar)) := fun cs =>
  match skipSpace cs with
  | '\x7d' :: rest => some ([], rest)
  | rest => entriesWith rest.length rest

/-- A value. -/
def value : Reader Value
  | '\x7b' :: cs => (tableRest cs).map fun (entries, rest) => (.table entries, rest)
  | cs => (scalar cs).map fun (s, rest) => (.scalar s, rest)

/-- Whether nothing but blanks and a comment is left of a line. -/
def isDone (cs : List Char) : Bool :=
  match skipSpace cs with
  | [] => true
  | '#' :: comment => comment.all isPlain
  | _ => false

/-- What a line says, if it is well formed. -/
def line? (cs : List Char) : Option Line :=
  if isDone cs then some .nothing
  else
    match skipSpace cs with
    | '[' :: rest => do
      let (k, rest') ← key rest
      match rest' with
      | ']' :: more => if isDone more then some (.header k) else none
      | _ => none
    | rest => do
      let ((k, v), rest') ← assigned value rest
      if isDone rest' then some (.entry k v) else none

/-- The lines of a text: each ends at a line feed, with or without a carriage return before it. -/
def textLines : List Char → List (List Char)
  | [] => [[]]
  | '\n' :: cs => [] :: textLines cs
  | '\r' :: '\n' :: cs => [] :: textLines cs
  | c :: cs =>
    match textLines cs with
    | [] => [[c]]
    | line :: lines => (c :: line) :: lines

/-- What the lines of a file say, if all are well formed; a byte order mark may come first. -/
def lines? (text : String) : Option (List Line) :=
  let cs := match text.toList with
    | '\uFEFF' :: cs => cs
    | cs => cs
  (textLines cs).mapM line?

end SmallCpp.Toml
