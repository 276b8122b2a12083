import SmallCpp.Proofs.Grammar.Printing
import SmallCpp.Proofs.WellFormed

/-!
# Printing programs

The token kinds of every part of a program. Compound operands stand between parentheses, and so does
the whole expression of an expression statement: what follows the opening parenthesis cannot be
mistaken for a declaration. A declaration names its base type once; each global is a declaration of
its own.
-/

namespace SmallCpp

/-- Parentheses stand around everything but literals and names. -/
def ParenRule.full : ParenRule :=
  fun _ e => e.level < 9

/-- Parentheses around everything are enough. -/
theorem ParenRule.covers_full : full.Covers := by
  intro n e hn h
  have : ¬e.level < 9 := by simpa [full] using h
  omega

namespace Expr

/-- The token kinds of an expression that is part of a statement or a declaration. -/
def printed (e : Expr) : List TokenKind :=
  e.wordAt .full 0

/-- The token kinds of an expression that may be left out. -/
def printed? : Option Expr → List TokenKind
  | none => []
  | some e => e.printed

end Expr

/-- The token that names the base of a type. -/
def WrittenType.baseKind : WrittenType → TokenKind
  | int => .keyword .int
  | bool => .keyword .bool
  | char => .keyword .char
  | void => .keyword .void
  | named name => .identifier name
  | array elem _ => elem.baseKind

/-- The tokens that may name a base type. -/
def TokenKind.startsType : TokenKind → Bool
  | .keyword .int | .keyword .bool | .keyword .char | .keyword .void | .identifier _ => true
  | _ => false

/-- Every base type is named by such a token. -/
theorem WrittenType.startsType_baseKind (type : WrittenType) :
    type.baseKind.startsType = true := by
  induction type with
  | array elem bound ih => exact ih
  | _ => rfl

/-- No base type is named by another token. -/
theorem WrittenType.baseKind_ne (type : WrittenType) {k : TokenKind} (hk : k.startsType = false) :
    type.baseKind ≠ k := by
  rintro rfl
  rw [type.startsType_baseKind] at hk
  cases hk

/-- The token kinds of array bounds. -/
def boundsWord (bounds : List (Option Expr)) : List TokenKind :=
  bounds.flatMap fun bound => .symbol .lBracket :: (Expr.printed? bound ++ [.symbol .rBracket])

/-- The token kinds of a declarator: `x`, `&x`, `x[2][3]` or `(&x)[5]`. -/
def declaratorWord (name : String) (byRef : Bool) (bounds : List (Option Expr)) :
    List TokenKind :=
  match byRef, bounds with
  | false, bounds => .identifier name :: boundsWord bounds
  | true, [] => [.symbol .amp, .identifier name]
  | true, bounds =>
    .symbol .lParen :: .symbol .amp :: .identifier name :: .symbol .rParen :: boundsWord bounds

namespace Initializer

mutual

/-- The token kinds of an initializer. -/
def word : Initializer → List TokenKind
  | expr e => e.printed
  | list items _ => .symbol .lBrace :: (separated (words items) ++ [.symbol .rBrace])

/-- The token kinds of initializers. -/
def words : List Initializer → List (List TokenKind)
  | [] => []
  | i :: is => i.word :: words is

end

/-- The words of several initializers are those of each. -/
theorem words_eq_map (is : List Initializer) : words is = is.map word := by
  induction is with
  | nil => rfl
  | cons i is ih => rw [words, ih, List.map_cons]

end Initializer

/-- The token kinds of an initializer with its equals sign, if there is one. -/
def initWord : Option Initializer → List TokenKind
  | none => []
  | some i => .symbol .eq :: i.word

/-- The token kinds of a declared variable after its base type. -/
def VarDecl.word (decl : VarDecl) : List TokenKind :=
  declaratorWord decl.name decl.byRef decl.type.dims ++ initWord decl.init

/-- The token kinds of a declaration of variables that share a base type. -/
def declarationWord : List VarDecl → List TokenKind
  | [] => []
  | decl :: decls =>
    decl.type.baseKind :: (separated ((decl :: decls).map VarDecl.word) ++ [.symbol .semi])

namespace Statement

mutual

/-- The token kinds of a statement. -/
def word : Statement → List TokenKind
  | declare decls _ => declarationWord decls
  | expr e _ => enclosed true (e.word .full) ++ [.symbol .semi]
  | ifThen cond thenBranch _ =>
    .keyword .ifWord :: (enclosed true cond.printed ++ thenBranch.word)
  | ifElse cond thenBranch elseBranch _ =>
    .keyword .ifWord :: (enclosed true cond.printed ++
      (thenBranch.word ++ .keyword .elseWord :: elseBranch.word))
  | loop cond body _ => .keyword .whileWord :: (enclosed true cond.printed ++ body.word)
  | ret value _ => .keyword .returnWord :: (Expr.printed? value ++ [.symbol .semi])
  | block body _ => .symbol .lBrace :: (wordAll body ++ [.symbol .rBrace])
  | empty _ => [.symbol .semi]

/-- The token kinds of statements. -/
def wordAll : List Statement → List TokenKind
  | [] => []
  | s :: ss => s.word ++ wordAll ss

end

end Statement

/-- The token kinds of a block. -/
def Block.word (b : Block) : List TokenKind :=
  .symbol .lBrace :: (Statement.wordAll b.statements ++ [.symbol .rBrace])

/-- The token kinds of a parameter. -/
def Param.word (p : Param) : List TokenKind :=
  p.type.baseKind :: declaratorWord p.name p.byRef p.type.dims

/-- The token kinds of a prototype or a definition after its result type. -/
def FunctionDecl.declaredWord (decl : FunctionDecl) : List TokenKind :=
  .identifier decl.name :: .symbol .lParen :: (separated (decl.params.map Param.word) ++
    .symbol .rParen :: (decl.body.map Block.word).getD [.symbol .semi])

/-- The token kinds of a prototype or a definition. -/
def FunctionDecl.word (decl : FunctionDecl) : List TokenKind :=
  decl.returns.baseKind :: decl.declaredWord

/-- The token kinds of a member. -/
def FieldDecl.word (f : FieldDecl) : List TokenKind :=
  f.type.baseKind :: (declaratorWord f.name false f.type.dims ++ [.symbol .semi])

/-- The token kinds of a record. -/
def RecordDecl.word (decl : RecordDecl) : List TokenKind :=
  .keyword .structWord :: .identifier decl.name :: .symbol .lBrace ::
    (decl.fields.flatMap FieldDecl.word ++ [.symbol .rBrace, .symbol .semi])

/-- The token kinds of an item. -/
def Item.word : Item → List TokenKind
  | function decl => decl.word
  | record decl => decl.word
  | global decl => declarationWord [decl]

/-- The token kinds of a program. -/
def Program.word (p : Program) : List TokenKind :=
  p.items.flatMap Item.word

end SmallCpp
