import Mathlib.Data.List.Basic
import Mathlib.Tactic.Common
import SmallCpp.Proofs.Bare
import SmallCpp.Proofs.Parser.Accepts

/-!
# The grammar of expressions

`Derives n w e` says that the token kinds `w` derive the expression `e` at level `n` of the
grammar. Level 0 is assignment, which is right-associative; the levels from 1 to 6 are those of the
binary operators, which are left-associative; level 7 has the operators before an operand, level 8
the forms after one, and level 9 literals, names and parentheses. Trees in the grammar are without
spans.

Which binary operators a level has is written out here (`BinaryOp.ofLevel`), apart from the table
by which the parser climbs; that the two agree is `BinaryOp.level_eq_rank`.
-/

namespace SmallCpp

/-- The symbol of an arithmetic operator. -/
def ArithOp.symbol : ArithOp → Symbol
  | add => .plus
  | sub => .minus
  | mul => .star
  | div => .slash
  | rem => .percent

/-- The symbol of a comparison. -/
def CompareOp.symbol : CompareOp → Symbol
  | eq => .eqEq
  | ne => .bangEq
  | lt => .lt
  | le => .ltEq
  | gt => .gt
  | ge => .gtEq

/-- The symbol of a binary operator. -/
def BinaryOp.symbol : BinaryOp → Symbol
  | arith op => op.symbol
  | compare op => op.symbol
  | logic .and => .ampAmp
  | logic .or => .pipePipe

namespace BinaryOp

/-- The binary operators of each level: `||` binds loosest, then `&&`, the equalities, the
orderings, the sums, and tightest the products. -/
def ofLevel : Nat → List BinaryOp
  | 1 => [logic .or]
  | 2 => [logic .and]
  | 3 => [compare .eq, compare .ne]
  | 4 => [compare .lt, compare .le, compare .gt, compare .ge]
  | 5 => [arith .add, arith .sub]
  | 6 => [arith .mul, arith .div, arith .rem]
  | _ => []

/-- The level that has the operator. -/
def rank (op : BinaryOp) : Nat :=
  (List.range 7).findIdx fun n => op ∈ ofLevel n

/-- No operator is missing from the levels. -/
theorem mem_ofLevel_rank (op : BinaryOp) : op ∈ ofLevel op.rank := by
  rcases op with op | op | op <;> cases op <;> decide

/-- No operator is on two levels. -/
theorem mem_ofLevel_iff {n : Nat} {op : BinaryOp} : op ∈ ofLevel n ↔ n = op.rank := by
  refine ⟨fun h => ?_, fun h => h ▸ op.mem_ofLevel_rank⟩
  unfold ofLevel at h
  split at h
  case h_7 => cases h
  all_goals
    simp only [List.mem_cons, List.not_mem_nil, or_false] at h
    obtain rfl | rfl | rfl | rfl := h <;> rfl

/-- Below the levels of binary operators there is assignment. -/
theorem one_le_rank (op : BinaryOp) : 1 ≤ op.rank := by
  rcases op with op | op | op <;> cases op <;> decide

/-- Above the levels of binary operators there are the operands. -/
theorem rank_le_six (op : BinaryOp) : op.rank ≤ 6 := by
  rcases op with op | op | op <;> cases op <;> decide

/-- The levels by which the parser climbs are those of the grammar. -/
theorem level_eq_rank (op : BinaryOp) : op.level = op.rank := by
  rcases op with op | op | op <;> cases op <;> rfl

end BinaryOp

/-- The symbol of an operator before an operand. -/
def UnaryOp.symbol : UnaryOp → Symbol
  | neg => .minus
  | plus => .plus
  | not => .bang

/-- The symbol of a step. -/
def StepOp.symbol : StepOp → Symbol
  | increment => .plusPlus
  | decrement => .minusMinus

/-- The symbol of a plain assignment, or of one with an operator. -/
def assignSymbol : Option ArithOp → Symbol
  | none => .eq
  | some .add => .plusEq
  | some .sub => .minusEq
  | some .mul => .starEq
  | some .div => .slashEq
  | some .rem => .percentEq

/-- The token of a literal. -/
def Literal.kind : Literal → TokenKind
  | int n => .integer n
  | char c => .character c
  | bool true => .keyword .trueWord
  | bool false => .keyword .falseWord

/-- The token kinds `w` derive the expression `e` at level `n`. -/
inductive Derives : Nat → List TokenKind → Expr → Prop
  | up {n w e} (hn : n < 9) (h : Derives (n + 1) w e) : Derives n w e
  | assign (op) {target value wt wv} (hplace : target.isPlace = true) (ht : Derives 8 wt target)
      (hv : Derives 0 wv value) :
      Derives 0 (wt ++ .symbol (assignSymbol op) :: wv) (.assign op target value .nowhere)
  | binary {n op left right wl wr} (hop : op ∈ BinaryOp.ofLevel n) (hl : Derives n wl left)
      (hr : Derives (n + 1) wr right) :
      Derives n (wl ++ .symbol op.symbol :: wr) (.binary op left right .nowhere)
  | unary (op) {operand w} (h : Derives 7 w operand) :
      Derives 7 (.symbol op.symbol :: w) (.unary op operand .nowhere)
  | stepBefore (op) {target w} (hplace : target.isPlace = true) (h : Derives 7 w target) :
      Derives 7 (.symbol op.symbol :: w) (.step op .before target .nowhere)
  | stepAfter (op) {target w} (hplace : target.isPlace = true) (h : Derives 8 w target) :
      Derives 8 (w ++ [.symbol op.symbol]) (.step op .after target .nowhere)
  | index {base subscript wb ws} (hb : Derives 8 wb base) (hs : Derives 0 ws subscript) :
      Derives 8 (wb ++ .symbol .lBracket :: (ws ++ [.symbol .rBracket]))
        (.index base subscript .nowhere)
  | field {base w} (id) (h : Derives 8 w base) :
      Derives 8 (w ++ [.symbol .dot, .identifier id]) (.field base id .nowhere)
  | call {callee w} {args : List (List TokenKind × Expr)}
      (hcallee : Derives 8 w (.name callee .nowhere))
      (hargs : ∀ arg ∈ args, Derives 0 arg.1 arg.2) :
      Derives 8 (w ++ .symbol .lParen :: (separated (args.map Prod.fst) ++ [.symbol .rParen]))
        (.call callee .nowhere (args.map Prod.snd) .nowhere)
  | literal (lit) : Derives 9 [lit.kind] (.literal lit .nowhere)
  | name (id) : Derives 9 [.identifier id] (.name id .nowhere)
  | group {e w} (h : Derives 0 w e) : Derives 9 (.symbol .lParen :: (w ++ [.symbol .rParen])) e

namespace TokenKind

/-- The tokens that start an operand: literals, names and the opening parenthesis. -/
def startsOperand : TokenKind → Bool
  | integer _ | character _ | keyword .trueWord | keyword .falseWord | identifier _
  | symbol .lParen => true
  | _ => false

/-- The tokens that start an expression. -/
def startsExpression : TokenKind → Bool
  | symbol .plus | symbol .minus | symbol .bang | symbol .plusPlus | symbol .minusMinus => true
  | k => k.startsOperand

/-- The tokens that add something to an operand: a subscript, a field, arguments or a step. -/
def continuesOperand : TokenKind → Bool
  | symbol .lBracket | symbol .dot | symbol .lParen | symbol .plusPlus | symbol .minusMinus => true
  | _ => false

/-- The tokens that add something to an expression. -/
def ContinuesExpression (k : TokenKind) : Prop :=
  k.continuesOperand = true ∨ (∃ op : BinaryOp, k = symbol op.symbol) ∨
    ∃ op, k = symbol (assignSymbol op)

/-- An expression may start with an operand. -/
theorem startsExpression_of_startsOperand {k : TokenKind} (h : k.startsOperand = true) :
    k.startsExpression = true := by
  unfold startsExpression
  split <;> first | rfl | exact h

/-- An expression may start with an operator before an operand. -/
theorem startsExpression_unary (op : UnaryOp) : (symbol op.symbol).startsExpression = true := by
  cases op <;> rfl

/-- An expression may start with an increment or decrement. -/
theorem startsExpression_step (op : StepOp) : (symbol op.symbol).startsExpression = true := by
  cases op <;> rfl

end TokenKind

namespace Parser

/-- The parser's table of binary operators knows each by its symbol. -/
@[simp] theorem binaryOp?_symbol (op : BinaryOp) : binaryOp? (.symbol op.symbol) = some op := by
  rcases op with op | op | op <;> cases op <;> rfl

/-- The parser's table of assignments knows each by its symbol. -/
@[simp] theorem assignOp?_symbol (op : Option ArithOp) :
    assignOp? (.symbol (assignSymbol op)) = some op := by
  rcases op with _ | op
  · rfl
  · cases op <;> rfl

/-- The parser's table of operators before an operand knows each by its symbol. -/
@[simp] theorem unaryOp?_symbol (op : UnaryOp) : unaryOp? (.symbol op.symbol) = some op := by
  cases op <;> rfl

/-- The parser's table of increments and decrements knows both by their symbols. -/
@[simp] theorem stepOp?_symbol (op : StepOp) : stepOp? (.symbol op.symbol) = some op := by
  cases op <;> rfl

/-- Increments and decrements are not in the table of the other operators before an operand. -/
theorem unaryOp?_stepSymbol (op : StepOp) : unaryOp? (.symbol op.symbol) = none := by
  cases op <;> rfl

/-- Only the symbol of a binary operator is in the table of binary operators. -/
theorem symbol_of_binaryOp? {k : TokenKind} {op : BinaryOp} (h : binaryOp? k = some op) :
    k = .symbol op.symbol := by
  unfold binaryOp? at h
  split at h <;> cases h <;> rfl

/-- Only the symbol of an assignment is in the table of assignments. -/
theorem symbol_of_assignOp? {k : TokenKind} {op : Option ArithOp} (h : assignOp? k = some op) :
    k = .symbol (assignSymbol op) := by
  unfold assignOp? at h
  split at h <;> cases h <;> rfl

/-- Only the symbol of an operator before an operand is in the table of these operators. -/
theorem symbol_of_unaryOp? {k : TokenKind} {op : UnaryOp} (h : unaryOp? k = some op) :
    k = .symbol op.symbol := by
  unfold unaryOp? at h
  split at h <;> cases h <;> rfl

/-- Only the symbols of increment and decrement are in the table of the two. -/
theorem symbol_of_stepOp? {k : TokenKind} {op : StepOp} (h : stepOp? k = some op) :
    k = .symbol op.symbol := by
  unfold stepOp? at h
  split at h <;> cases h <;> rfl

end Parser

/-- The tokens that continue an expression are those that the parser's tables know. -/
theorem TokenKind.not_continuesExpression_iff {k : TokenKind} :
    ¬k.ContinuesExpression ↔
      k.continuesOperand = false ∧ Parser.binaryOp? k = none ∧ Parser.assignOp? k = none := by
  constructor
  · intro hk
    refine ⟨Bool.eq_false_iff.mpr fun h => hk (.inl h), ?_, ?_⟩
    · exact Option.eq_none_iff_forall_not_mem.mpr fun op h =>
        hk (.inr (.inl ⟨op, Parser.symbol_of_binaryOp? h⟩))
    · exact Option.eq_none_iff_forall_not_mem.mpr fun op h =>
        hk (.inr (.inr ⟨op, Parser.symbol_of_assignOp? h⟩))
  · rintro ⟨hoperand, hbinary, hassign⟩ (h | ⟨op, rfl⟩ | ⟨op, rfl⟩)
    · rw [hoperand] at h
      cases h
    · rw [Parser.binaryOp?_symbol] at hbinary
      cases hbinary
    · rw [Parser.assignOp?_symbol] at hassign
      cases hassign

instance : DecidablePred TokenKind.ContinuesExpression := fun _ =>
  decidable_of_iff _ (not_congr TokenKind.not_continuesExpression_iff.symm |>.trans not_not)

/-- The symbols that close or separate expressions. -/
def Symbol.closes : Symbol → Bool
  | rParen | rBracket | rBrace | comma | semi => true
  | _ => false

/-- What closes or separates expressions continues none. -/
theorem TokenKind.not_continuesExpression_of_closes {s : Symbol} (h : s.closes = true) :
    ¬(symbol s).ContinuesExpression := by
  cases s <;> first | decide | cases h

namespace Derives

variable {n m : Nat} {w : List TokenKind} {e : Expr}

/-- What is derived at a level is derived at every lower one. -/
theorem down (h : Derives n w e) (hn : n ≤ 9) (hm : m ≤ n) : Derives m w e := by
  induction hm with
  | refl => exact h
  | step _ ih => exact ih (.up (by omega) h) (by omega)

/-- From level 8 on, words start with a literal, a name or a parenthesis. -/
theorem startsOperand (h : Derives n w e) (hn : 8 ≤ n) : Starts TokenKind.startsOperand w := by
  induction h with
  | up _ _ ih => exact ih (by omega)
  | assign | unary | stepBefore => omega
  | @binary _ op _ _ _ _ hop =>
    rw [BinaryOp.mem_ofLevel_iff.mp hop] at hn
    exact absurd (Nat.le_trans hn op.rank_le_six) (by decide)
  | stepAfter _ _ _ ih | index _ _ ih | field _ _ ih | call _ _ ih => exact (ih hn).append _
  | literal lit =>
    refine ⟨_, [], rfl, ?_⟩
    rcases lit with _ | b | _
    · rfl
    · cases b <;> rfl
    · rfl
  | name id => exact ⟨_, [], rfl, rfl⟩
  | group => exact ⟨_, _, rfl, rfl⟩

/-- Words of every level start as an expression does. -/
theorem startsExpression (h : Derives n w e) : Starts TokenKind.startsExpression w := by
  induction h with
  | up _ _ ih => exact ih
  | assign _ _ _ _ ih | binary _ _ _ ih | stepAfter _ _ _ ih | index _ _ ih | field _ _ ih
  | call _ _ ih => exact ih.append _
  | unary op => exact ⟨_, _, rfl, TokenKind.startsExpression_unary op⟩
  | stepBefore op => exact ⟨_, _, rfl, TokenKind.startsExpression_step op⟩
  | literal lit =>
    exact ((literal lit).startsOperand (by omega)).mono fun _ =>
      TokenKind.startsExpression_of_startsOperand
  | name id => exact ⟨_, _, rfl, rfl⟩
  | group => exact ⟨_, _, rfl, rfl⟩

/-- No word is empty. -/
theorem length_pos (h : Derives n w e) : 0 < w.length :=
  h.startsExpression.length_pos

end Derives

end SmallCpp
