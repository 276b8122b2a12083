import SmallCpp.Span
import SmallCpp.Text.Quoted

/-!
# Tokens

The words and signs of the source language. Keywords and symbols each have one spelling
(`Keyword.text`, `Symbol.text`); the lists `Keyword.all` and `Symbol.all` are the tables that the
scanner reads them back from.
-/

namespace SmallCpp

/-- The reserved words. -/
inductive Keyword
  | int | bool | char | void
  | ifWord | elseWord | whileWord | returnWord
  | trueWord | falseWord
  | classWord | structWord
  | publicWord | privateWord | protectedWord
deriving DecidableEq, Repr

namespace Keyword

/-- The spelling of a keyword. -/
def text : Keyword → String
  | int => "int"
  | bool => "bool"
  | char => "char"
  | void => "void"
  | ifWord => "if"
  | elseWord => "else"
  | whileWord => "while"
  | returnWord => "return"
  | trueWord => "true"
  | falseWord => "false"
  | classWord => "class"
  | structWord => "struct"
  | publicWord => "public"
  | privateWord => "private"
  | protectedWord => "protected"

/-- All keywords. -/
def all : List Keyword :=
  [int, bool, char, void, ifWord, elseWord, whileWord, returnWord, trueWord, falseWord,
    classWord, structWord, publicWord, privateWord, protectedWord]

/-- The keyword that a word spells, if any. -/
def ofText? (word : String) : Option Keyword :=
  all.find? (·.text == word)

end Keyword

/-- Operators and punctuation. -/
inductive Symbol
  | plusPlus | minusMinus
  | plusEq | minusEq | starEq | slashEq | percentEq
  | eqEq | bangEq | ltEq | gtEq | ampAmp | pipePipe
  | plus | minus | star | slash | percent
  | eq | bang | lt | gt | amp
  | dot | comma | colon | semi
  | lParen | rParen | lBrace | rBrace | lBracket | rBracket
deriving DecidableEq, Repr

namespace Symbol

/-- The spelling of a symbol. -/
def text : Symbol → String
  | plusPlus => "++"
  | minusMinus => "--"
  | plusEq => "+="
  | minusEq => "-="
  | starEq => "*="
  | slashEq => "/="
  | percentEq => "%="
  | eqEq => "=="
  | bangEq => "!="
  | ltEq => "<="
  | gtEq => ">="
  | ampAmp => "&&"
  | pipePipe => "||"
  | plus => "+"
  | minus => "-"
  | star => "*"
  | slash => "/"
  | percent => "%"
  | eq => "="
  | bang => "!"
  | lt => "<"
  | gt => ">"
  | amp => "&"
  | dot => "."
  | comma => ","
  | colon => ":"
  | semi => ";"
  | lParen => "("
  | rParen => ")"
  | lBrace => "\x7b"
  | rBrace => "\x7d"
  | lBracket => "["
  | rBracket => "]"

/-- All symbols, those of two characters first, so that the first match is the longest. -/
def all : List Symbol :=
  [plusPlus, minusMinus, plusEq, minusEq, starEq, slashEq, percentEq, eqEq, bangEq, ltEq, gtEq,
    ampAmp, pipePipe, plus, minus, star, slash, percent, eq, bang, lt, gt, amp, dot, comma, colon,
    semi, lParen, rParen, lBrace, rBrace, lBracket, rBracket]

/-- The longest symbol that the text starts with. -/
def leading? (cs : List Char) : Option Symbol :=
  all.find? (·.text.toList.isPrefixOf cs)

end Symbol

/-- What a token is. -/
inductive TokenKind
  | identifier (name : String)
  | integer (value : Int64)
  | character (value : UInt8)
  | keyword (word : Keyword)
  | symbol (sign : Symbol)
  | eof
deriving DecidableEq, Repr

namespace TokenKind

/-- How messages name a token. -/
def describe : TokenKind → String
  | identifier name => s!"identifier `{name}`"
  | integer value => s!"integer `{value.toInt}`"
  | character value => "character " ++ Text.quotedChar (Char.ofNat value.toNat)
  | keyword word => s!"`{word.text}`"
  | symbol sign => s!"`{sign.text}`"
  | eof => "end of file"

end TokenKind

/-- A token and where it stands. -/
structure Token where
  /-- What the token is. -/
  kind : TokenKind
  /-- Where it stands in the source. -/
  span : Span
deriving DecidableEq, Repr

end SmallCpp
