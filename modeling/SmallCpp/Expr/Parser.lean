import SmallCpp.Token.Cursor

/-!
# Reading expressions

Assignment is right-associative and binds loosest; then come the binary operators by
`BinaryOp.level`, the operators before an operand, the forms after an operand, and literals, names
and parentheses. Each function takes a bound on the steps it may still make. Every step through
the grammar's levels that reads no token ends after six of them, so a bound in proportion to the
number of tokens is never used up.
-/

namespace SmallCpp

namespace Parser

/-- The binary operator that a token stands for. -/
def binaryOp? : TokenKind → Option BinaryOp
  | .symbol .pipePipe => some (.logic .or)
  | .symbol .ampAmp => some (.logic .and)
  | .symbol .eqEq => some (.compare .eq)
  | .symbol .bangEq => some (.compare .ne)
  | .symbol .lt => some (.compare .lt)
  | .symbol .ltEq => some (.compare .le)
  | .symbol .gt => some (.compare .gt)
  | .symbol .gtEq => some (.compare .ge)
  | .symbol .plus => some (.arith .add)
  | .symbol .minus => some (.arith .sub)
  | .symbol .star => some (.arith .mul)
  | .symbol .slash => some (.arith .div)
  | .symbol .percent => some (.arith .rem)
  | _ => none

/-- The assignment that a token stands for: plain, or with an operator. -/
def assignOp? : TokenKind → Option (Option ArithOp)
  | .symbol .eq => some none
  | .symbol .plusEq => some (some .add)
  | .symbol .minusEq => some (some .sub)
  | .symbol .starEq => some (some .mul)
  | .symbol .slashEq => some (some .div)
  | .symbol .percentEq => some (some .rem)
  | _ => none

/-- The operator before an operand that a token stands for, steps apart. -/
def unaryOp? : TokenKind → Option UnaryOp
  | .symbol .minus => some .neg
  | .symbol .plus => some .plus
  | .symbol .bang => some .not
  | _ => none

/-- The step that a token stands for. -/
def stepOp? : TokenKind → Option StepOp
  | .symbol .plusPlus => some .increment
  | .symbol .minusMinus => some .decrement
  | _ => none

/-- The expression that a single token stands for. -/
def atom? (t : Token) : Option Expr :=
  match t.kind with
  | .integer value => some (.literal (.int value) t.span)
  | .character value => some (.literal (.char value) t.span)
  | .keyword .trueWord => some (.literal (.bool true) t.span)
  | .keyword .falseWord => some (.literal (.bool false) t.span)
  | .identifier id => some (.name id t.span)
  | _ => none

/-- A step of a target that starts at `start`, once its last token is read. -/
def stepOf (op : StepOp) (fixity : Fixity) (target : Expr) (start : Nat) : Parser Expr := do
  if target.isPlace then
    let stop ← lastEnd
    return .step op fixity target ⟨min start target.span.start, max target.span.stop stop⟩
  else
    fail .notSteppable target.span

mutual

/-- An expression: an assignment, or a binary expression. -/
def expression : Nat → Parser Expr
  | 0 => unfinished
  | fuel + 1 => do
    let target ← binary fuel 0
    match assignOp? (← kind) with
    | none => return target
    | some op =>
      let _ ← advance
      if target.isPlace then
        let value ← expression fuel
        return .assign op target value (target.span.join value.span)
      else
        fail .notAssignable target.span

/-- Operands joined by operators of at least the given level. -/
def binary : Nat → Nat → Parser Expr
  | 0, _ => unfinished
  | fuel + 1, level => do
    let left ← unary fuel
    binaryRest fuel level left

/-- The operators of at least the given level that follow a left operand. -/
def binaryRest : Nat → Nat → Expr → Parser Expr
  | 0, _, _ => unfinished
  | fuel + 1, level, left => do
    match binaryOp? (← kind) with
    | none => return left
    | some op =>
      if op.level < level then
        return left
      else
        let _ ← advance
        let right ← binary fuel (op.level + 1)
        binaryRest fuel level (.binary op left right (left.span.join right.span))

/-- An operand with the operators that stand before it. -/
def unary : Nat → Parser Expr
  | 0 => unfinished
  | fuel + 1 => do
    let first ← peek
    match unaryOp? first.kind, stepOp? first.kind with
    | some op, _ =>
      let _ ← advance
      let operand ← unary fuel
      return .unary op operand (first.span.join operand.span)
    | none, some op =>
      let _ ← advance
      let target ← unary fuel
      stepOf op .before target first.span.start
    | none, none =>
      let base ← primary fuel
      postfixRest fuel base

/-- The subscripts, fields, arguments and steps that follow an operand. -/
def postfixRest : Nat → Expr → Parser Expr
  | 0, _ => unfinished
  | fuel + 1, base => do
    match ← kind with
    | .symbol .lBracket =>
      let _ ← advance
      let subscript ← expression fuel
      let close ← expect .rBracket .indexClose
      postfixRest fuel (.index base subscript ⟨base.span.start, close.span.stop⟩)
    | .symbol .dot =>
      let _ ← advance
      let member ← expectName .fieldName
      postfixRest fuel (.field base member ⟨base.span.start, ← lastEnd⟩)
    | .symbol .lParen =>
      match base with
      | .name callee calleeSpan =>
        let _ ← advance
        let args ← argumentList fuel
        let close ← expect .rParen .argumentsClose
        postfixRest fuel (.call callee calleeSpan args ⟨calleeSpan.start, close.span.stop⟩)
      | _ =>
        fail .notCallable (← peek).span
    | k =>
      match stepOp? k with
      | some op =>
        let _ ← advance
        let stepped ← stepOf op .after base base.span.start
        postfixRest fuel stepped
      | none => return base

/-- The expressions between the parentheses of a call. -/
def argumentList : Nat → Parser (List Expr)
  | 0 => unfinished
  | fuel + 1 => do
    if (← kind) = .symbol .rParen then
      return []
    else
      arguments fuel

/-- One or more expressions between commas. -/
def arguments : Nat → Parser (List Expr)
  | 0 => unfinished
  | fuel + 1 => do
    let arg ← expression fuel
    if ← accept .comma then
      return arg :: (← arguments fuel)
    else
      return [arg]

/-- A literal, a name or an expression between parentheses. -/
def primary : Nat → Parser Expr
  | 0 => unfinished
  | fuel + 1 => do
    let t ← peek
    match atom? t with
    | some e =>
      let _ ← advance
      return e
    | none =>
      if t.kind = .symbol .lParen then
        let _ ← advance
        let e ← expression fuel
        let _ ← expect .rParen .groupClose
        return e
      else
        noExpression

end

end Parser

end SmallCpp
