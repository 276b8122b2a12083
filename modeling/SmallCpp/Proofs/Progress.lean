import SmallCpp.Proofs.Parser.Moves

/-!
# Reading makes progress

How each parser moves, one lemma for each: a phrase reads at least one token, a rest or a loop may
read none. A parser that calls another before it reads a token has a higher rank than that one:
from `primary` with one up to `argumentList` with six. No chain of calls without a token is longer,
so six steps for each token are enough; the rules for calls do not unify where they would not be.

Each parser that makes steps is compared with itself with more of them (`fuel ≤ more`). The two have
the same outcome where the fewer steps are enough.
-/

namespace SmallCpp

namespace Parser

variable {rank fuel more : Nat} {c : Cursor}

/-! ### Expressions -/

/-- How the parsers of expressions move. -/
structure ExpressionsMove (fuel more : Nat) : Prop where
  expression : ∀ c, Moves 4 fuel 1 c (expression fuel) (expression more)
  binary : ∀ c level, Moves 3 fuel 1 c (binary fuel level) (binary more level)
  binaryRest : ∀ c level left,
    Moves 1 fuel 0 c (binaryRest fuel level left) (binaryRest more level left)
  unary : ∀ c, Moves 2 fuel 1 c (unary fuel) (unary more)
  postfixRest : ∀ c base, Moves 1 fuel 0 c (postfixRest fuel base) (postfixRest more base)
  argumentList : ∀ c, Moves 6 fuel 0 c (argumentList fuel) (argumentList more)
  arguments : ∀ c, Moves 5 fuel 1 c (arguments fuel) (arguments more)
  primary : ∀ c, Moves 1 fuel 1 c (primary fuel) (primary more)

/-- A token that stands for something is not the end of file. -/
theorem ne_eof_of_eq_some {α : Type} {f : TokenKind → Option α} {k : TokenKind} {a : α}
    (h : f k = some a) (heof : f .eof = none) : k ≠ .eof := by
  rintro rfl
  rw [heof] at h
  cases h

/-- A token that is an expression is not the end of file. -/
theorem ne_eof_of_atom {t : Token} {e : Expr} (h : atom? t = some e) : t.kind ≠ .eof := by
  intro hk
  unfold atom? at h
  rw [hk] at h
  cases h

/-- A step operator is checked against its operand without reading on. -/
theorem moves_stepOf (op : StepOp) (fixity : Fixity) (target : Expr) (start : Nat) :
    Moves rank fuel 0 c (stepOf op fixity target start) (stepOf op fixity target start) := by
  unfold stepOf
  exact .ite (fun _ => .lastEnd (.pure _)) fun _ => .fail (by simp) _

namespace ExpressionsMove

/-- An assignment is an operand, and after an assignment operator another assignment. -/
theorem expression_succ (ih : ExpressionsMove fuel more) (c : Cursor) :
    Moves 4 (fuel + 1) 1 c (Parser.expression (fuel + 1)) (Parser.expression (more + 1)) := by
  unfold Parser.expression
  refine .bind (ih.binary c 0).call fun target d => .kind ?_
  cases hop : assignOp? d.kind with
  | none => exact .pure _
  | some op =>
    have hk : d.kind ≠ .eof := ne_eof_of_eq_some hop rfl
    refine .bind (.advance hk) fun _ d' => .ite (fun _ => ?_) fun _ => .fail (by simp) _
    exact .bind (ih.expression d').call fun value d'' => .pure _

/-- An operand of some level is a unary expression and the operators that follow it. -/
theorem binary_succ (ih : ExpressionsMove fuel more) (c : Cursor) (level : Nat) :
    Moves 3 (fuel + 1) 1 c (Parser.binary (fuel + 1) level) (Parser.binary (more + 1) level) := by
  unfold Parser.binary
  exact .bind (ih.unary c).call fun left d => (ih.binaryRest d level left).call

/-- The operators that follow an operand, each with its right side. -/
theorem binaryRest_succ (ih : ExpressionsMove fuel more) (c : Cursor) (level : Nat) (left : Expr) :
    Moves 1 (fuel + 1) 0 c (Parser.binaryRest (fuel + 1) level left)
      (Parser.binaryRest (more + 1) level left) := by
  unfold Parser.binaryRest
  refine .kind ?_
  cases hop : binaryOp? c.kind with
  | none => exact .pure _
  | some op =>
    have hk : c.kind ≠ .eof := ne_eof_of_eq_some hop rfl
    refine .ite (fun _ => .pure _) fun _ => .bind (.advance hk) fun _ d => ?_
    refine .bind (ih.binary d _).call fun right d' => ?_
    exact (ih.binaryRest d' level _).call

/-- A unary expression is an operator and its operand, or a primary expression and what follows it.
-/
theorem unary_succ (ih : ExpressionsMove fuel more) (c : Cursor) :
    Moves 2 (fuel + 1) 1 c (Parser.unary (fuel + 1)) (Parser.unary (more + 1)) := by
  unfold Parser.unary
  refine .peek ?_
  cases hop : unaryOp? c.peek.kind with
  | some op =>
    -- The operand of a prefix operator is again a unary expression.
    refine .bind (.advance (ne_eof_of_eq_some hop rfl)) fun _ d => ?_
    exact .bind (ih.unary d).call fun operand d' => .pure _
  | none =>
    cases hstep : stepOp? c.peek.kind with
    | some op =>
      refine .bind (.advance (ne_eof_of_eq_some hstep rfl)) fun _ d => ?_
      exact .bind (ih.unary d).call fun target d' => moves_stepOf op _ _ _
    | none =>
      refine .bind (ih.primary c).call fun base d => ?_
      exact (ih.postfixRest d base).call

/-- What may follow a primary expression: subscripts, members, arguments and steps, each of which
starts with a token of its own. -/
theorem postfixRest_succ (ih : ExpressionsMove fuel more) (c : Cursor) (base : Expr) :
    Moves 1 (fuel + 1) 0 c (Parser.postfixRest (fuel + 1) base)
      (Parser.postfixRest (more + 1) base) := by
  unfold Parser.postfixRest
  refine .kind ?_
  split
  · -- a subscript
    next hk =>
    refine .bind (.advance (by simp [hk])) fun _ d => ?_
    refine .bind (ih.expression d).call fun subscript d' => ?_
    exact .bind (.expect _ _) fun close d'' => (ih.postfixRest d'' _).call
  · -- a field
    next hk =>
    refine .bind (.advance (by simp [hk])) fun _ d => .bind (.expectName _) fun member d' => ?_
    exact .lastEnd (ih.postfixRest d' _).call
  · -- arguments, before which a name has to stand
    next hk =>
    cases base with
    | name callee span =>
      refine .bind (.advance (by simp [hk])) fun _ d => ?_
      refine .bind (ih.argumentList d).call fun args d' => ?_
      exact .bind (.expect _ _) fun close d'' => (ih.postfixRest d'' _).call
    | _ => exact .peek (.fail (by simp) _)
  · -- What is left is a step, or the end of the phrase.
    cases hop : stepOp? c.kind with
    | some op =>
      refine .bind (.advance (ne_eof_of_eq_some hop rfl)) fun _ d => ?_
      refine .bind (moves_stepOf op _ _ _) fun stepped d' => ?_
      exact (ih.postfixRest d' stepped).call
    | none => exact .pure _

/-- There may be no arguments. Nothing is read before the first one, so the rank is higher than that
of `arguments`. -/
theorem argumentList_succ (ih : ExpressionsMove fuel more) (c : Cursor) :
    Moves 6 (fuel + 1) 0 c (Parser.argumentList (fuel + 1)) (Parser.argumentList (more + 1)) := by
  unfold Parser.argumentList
  exact .kind (.ite (fun _ => .pure _) fun _ => (ih.arguments c).call.any)

/-- Arguments are expressions between commas. -/
theorem arguments_succ (ih : ExpressionsMove fuel more) (c : Cursor) :
    Moves 5 (fuel + 1) 1 c (Parser.arguments (fuel + 1)) (Parser.arguments (more + 1)) := by
  unfold Parser.arguments
  refine .bind (ih.expression c).call fun arg d => .accept (fun d' => ?_) (.pure _)
  exact .bind (ih.arguments d').call fun args d'' => .pure _

/-- A primary expression is a token, or an expression in parentheses. -/
theorem primary_succ (ih : ExpressionsMove fuel more) (c : Cursor) :
    Moves 1 (fuel + 1) 1 c (Parser.primary (fuel + 1)) (Parser.primary (more + 1)) := by
  unfold Parser.primary
  refine .peek ?_
  cases he : atom? c.peek with
  | some e => exact .bind (.advance (ne_eof_of_atom he)) fun _ d => .pure _
  | none =>
    refine .ite (fun hk => ?_) fun _ => .noExpression
    have hk : c.kind = .symbol .lParen := hk
    refine .bind (.advance (by simp [hk])) fun _ d => .bind (ih.expression d).call fun e d' => ?_
    exact .bind (.expect _ _) fun _ d'' => .pure _

end ExpressionsMove

/-- The parsers of expressions call each other with one step less. -/
theorem expressionsMove (h : fuel ≤ more) : ExpressionsMove fuel more := by
  induction h using bound_induction with
  | zero more =>
    constructor
    all_goals intros; exact .unfinished
  | succ fuel more h ih =>
    exact ⟨ih.expression_succ, ih.binary_succ, ih.binaryRest_succ, ih.unary_succ,
      ih.postfixRest_succ, ih.argumentList_succ, ih.arguments_succ, ih.primary_succ⟩

/-- An expression reads at least one token. -/
theorem moves_expression (h : fuel ≤ more) :
    Moves 4 fuel 1 c (expression fuel) (expression more) :=
  (expressionsMove h).expression c

/-! ### Declarators and initializers -/

/-- A base type is one token. -/
theorem moves_baseType (known : List String) :
    Moves rank fuel 1 c (baseType known) (baseType known) := by
  unfold baseType
  refine .peek ?_
  split
  -- The last case is a token that starts no type, the one before it a name that may be known.
  case h_6 => exact .fail (by simp) _
  case h_5 name hk =>
    refine .ite (fun _ => ?_) fun _ => .fail (by simp) _
    exact .bind (.advance (by simp [Cursor.kind, hk])) fun _ d => .pure _
  all_goals
    next hk => exact .bind (.advance (by simp [Cursor.kind, hk])) fun _ d => .pure _

/-- The bounds of a declarator: each starts with a bracket of its own. -/
theorem moves_bounds (name : String) (bare : Bool) (h : fuel ≤ more) (c : Cursor) :
    Moves 1 fuel 0 c (bounds name bare fuel) (bounds name bare more) := by
  induction h using bound_induction generalizing c with
  | zero more => exact .unfinished
  | succ fuel more h ih =>
    unfold bounds
    refine .peek (.ite (fun hk => ?_) fun _ => .pure _)
    have hk : c.kind = .symbol .lBracket := hk
    refine .bind (.advance (by simp [hk])) fun _ d => ?_
    refine .ite (fun _ => .fail (by simp) _) fun _ => .accept (fun d' => ?_) ?_
    · -- The bound may be left out, or it is an expression.
      exact .bind (ih d').call fun dims e => .pure _
    · refine .bind (moves_expression h).call fun bound d' => .bind (.expect _ _) fun _ e => ?_
      exact .bind (ih e).call fun dims e' => .pure _

/-- The name of a declarator, possibly as that of a reference. -/
theorem moves_declaredName : Moves rank fuel 1 c declaredName declaredName := by
  unfold declaredName
  refine .accept (fun d => ?_) (.accept (fun d => ?_) ?_)
  · -- The name may stand in parentheses behind `&`, behind `&` alone, or bare.
    refine .bind (.expect _ _) fun _ d' => .bind (.expectName _) fun name e => ?_
    exact .bind (.expect _ _) fun _ e' => .pure _
  · exact .bind (.expectName _) fun name d' => .pure _
  · exact .bind (.expectName _) fun name d' => .pure _

/-- A declarator is a name and its bounds. -/
theorem moves_declarator (h : fuel ≤ more) :
    Moves 0 fuel 1 c (declarator fuel) (declarator more) := by
  unfold declarator
  refine .peek (.bind moves_declaredName ?_)
  rintro ⟨name, byRef, bare⟩ d
  exact .bind (moves_bounds name bare h d).of fun dims d' => .lastEnd (.pure _)

/-- How the parsers of initializers move. -/
structure InitializersMove (fuel more : Nat) : Prop where
  initializer : ∀ c, Moves 5 fuel 1 c (initializer fuel) (initializer more)
  initializers : ∀ c, Moves 6 fuel 0 c (initializers fuel) (initializers more)

/-- The two parsers of initializers call each other with one step less. -/
theorem initializersMove (h : fuel ≤ more) : InitializersMove fuel more := by
  induction h using bound_induction with
  | zero more =>
    constructor
    all_goals intros; exact .unfinished
  | succ fuel more h ih =>
    constructor
    · intro c
      unfold Parser.initializer
      refine .peek (.ite (fun hk => ?_) fun _ => ?_)
      · -- A list in braces.
        have hk : c.kind = .symbol .lBrace := hk
        refine .bind (.advance (by simp [hk])) fun _ d => ?_
        refine .bind (ih.initializers d).call fun items d' => ?_
        exact .bind (.expect _ _) fun close e => .pure _
      · exact .bind (moves_expression h).call fun e d => .pure _
    · intro c
      unfold Parser.initializers
      refine .kind (.ite (fun _ => .pure _) fun _ => ?_)
      refine .bind (ih.initializer c).call fun item d => .accept (fun d' => ?_) (.pure _)
      exact .bind (ih.initializers d').call fun items e => .pure _

/-- An initializer may be missing. -/
theorem moves_initializer? (h : fuel ≤ more) :
    Moves 0 fuel 0 c (initializer? fuel) (initializer? more) := by
  unfold initializer?
  refine .accept (fun d => ?_) (.pure _)
  exact .bind ((initializersMove h).initializer d).of fun init d' => .pure _

/-- A variable is a declarator and possibly an initializer. -/
theorem moves_varDecl (type : WrittenType) (h : fuel ≤ more) :
    Moves 0 fuel 1 c (varDecl type fuel) (varDecl type more) := by
  unfold varDecl
  refine .bind (moves_declarator h).of fun decl d => ?_
  exact .bind (moves_initializer? h).of fun init d' => .lastEnd (.pure _)

/-- Variables stand between commas. -/
theorem moves_varDecls (type : WrittenType) (h : fuel ≤ more) (c : Cursor) :
    Moves 1 fuel 1 c (varDecls type fuel) (varDecls type more) := by
  induction h using bound_induction generalizing c with
  | zero more => exact .unfinished
  | succ fuel more h ih =>
    unfold varDecls
    refine .bind (moves_varDecl type h).call fun decl d => .accept (fun d' => ?_) (.pure _)
    exact .bind (ih d').call fun decls e => .pure _

/-- The variables after a base type, up to the semicolon. -/
theorem moves_declarations (type : WrittenType) (start : Nat) (h : fuel ≤ more) :
    Moves 1 fuel 1 c (declarations type start fuel) (declarations type start more) := by
  unfold declarations
  refine .ite (fun _ => .lastEnd (.fail (by simp) _)) fun _ => ?_
  refine .bind (moves_varDecls type h c).of fun decls d => ?_
  exact .bind (.expect _ _) fun _ d' => .pure _

/-! ### Statements -/

/-- A declaration starts with its base type. -/
theorem moves_declareStatement (known : List String) (h : fuel ≤ more) :
    Moves 0 fuel 1 c (declareStatement known fuel) (declareStatement known more) := by
  unfold declareStatement
  refine .bind (moves_baseType known) ?_
  rintro ⟨type, start⟩ d
  exact .bind (moves_declarations type start h).of fun decls d' => .lastEnd (.pure _)

/-- The value of `return` may be missing. -/
theorem moves_returnValue? (h : fuel ≤ more) :
    Moves 4 fuel 0 c (returnValue? fuel) (returnValue? more) := by
  unfold returnValue?
  refine .kind (.ite (fun _ => .pure _) fun _ => ?_)
  exact .bind (moves_expression h).of fun e d => .pure _

/-- A `return` statement reads at least its keyword. -/
theorem moves_returnStatement (h : fuel ≤ more) :
    Moves 4 fuel 1 c (returnStatement fuel) (returnStatement more) := by
  unfold returnStatement
  refine .bind .advance_any fun _ d => .bind (moves_returnValue? h).of fun value d' => ?_
  exact .bind (.expect _ _) fun close e => .pure _

/-- An expression as a statement ends with a semicolon. -/
theorem moves_expressionStatement (h : fuel ≤ more) :
    Moves 4 fuel 1 c (expressionStatement fuel) (expressionStatement more) := by
  unfold expressionStatement
  refine .bind (moves_expression h).of fun e d => ?_
  exact .bind (.expect _ _) fun close d' => .pure _

/-- A condition stands in parentheses. -/
theorem moves_condition (opening : Expected) (h : fuel ≤ more) :
    Moves 0 fuel 1 c (condition opening fuel) (condition opening more) := by
  unfold condition
  refine .bind (.expect _ _) fun _ d => .bind (moves_expression h).of fun cond d' => ?_
  exact .bind (.expect _ _) fun _ e => .pure _

/-- How the parsers of statements move. -/
structure StatementsMove (known : List String) (fuel more : Nat) : Prop where
  statement : ∀ c, Moves 5 fuel 1 c (statement known fuel) (statement known more)
  block : ∀ c, Moves 1 fuel 1 c (block known fuel) (block known more)
  statements : ∀ c, Moves 6 fuel 0 c (statements known fuel) (statements known more)

namespace StatementsMove

variable {known : List String}

/-- A statement reads at least one token, whatever its kind. -/
theorem statement_succ (h : fuel ≤ more) (ih : StatementsMove known fuel more) (c : Cursor) :
    Moves 5 (fuel + 1) 1 c (Parser.statement known (fuel + 1))
      (Parser.statement known (more + 1)) := by
  unfold Parser.statement
  refine .kind ?_
  split
  · -- a block
    exact .bind (ih.block c).call fun b d => .pure _
  · -- a conditional
    next hk =>
    refine .bind (.advance (by simp [hk])) fun _ d => ?_
    refine .bind (moves_condition _ h).call fun cond d' => ?_
    -- The `else` branch may be missing.
    refine .bind (ih.statement d').call fun thenBranch e => .kind (.ite (fun hk' => ?_) fun _ => ?_)
    · refine .bind (.advance (by simp [hk'])) fun _ e' => ?_
      exact .bind (ih.statement e').call fun elseBranch _ => .lastEnd (.pure _)
    · exact .lastEnd (.pure _)
  · -- a loop
    next hk =>
    refine .bind (.advance (by simp [hk])) fun _ d => ?_
    refine .bind (moves_condition _ h).call fun cond d' => ?_
    exact .bind (ih.statement d').call fun body e => .lastEnd (.pure _)
  · exact (moves_returnStatement h).call
  · next hk => exact .bind (.advance (by simp [hk])) fun _ d => .pure _
  · refine .ite (fun _ => ?_) fun _ => (moves_expressionStatement h).call
    exact (moves_declareStatement known h).call

/-- A block reads at least its braces. -/
theorem block_succ (ih : StatementsMove known fuel more) (c : Cursor) :
    Moves 1 (fuel + 1) 1 c (Parser.block known (fuel + 1)) (Parser.block known (more + 1)) := by
  unfold Parser.block
  refine .bind (.expect _ _) fun opening d => .bind (ih.statements d).call fun body d' => ?_
  exact .bind (.expect _ _) fun close e => .pure _

/-- Statements go on as long as there is something to read; where a statement fails, the cursor
moves to a place from which reading can go on. -/
theorem statements_succ (ih : StatementsMove known fuel more) (c : Cursor) :
    Moves 6 (fuel + 1) 0 c (Parser.statements known (fuel + 1))
      (Parser.statements known (more + 1)) := by
  unfold Parser.statements
  refine .kind (.ite (fun _ => .pure _) fun hend => ?_)
  have hk : c.kind ≠ .eof := by
    intro hk
    simp [hk] at hend
  refine .bind (.recovering (ih.statement c).call hk) fun s d => ?_
  exact .bind (ih.statements d).call fun ss d' => .pure _

end StatementsMove

/-- The three parsers of statements call each other with one step less. -/
theorem statementsMove (known : List String) (h : fuel ≤ more) :
    StatementsMove known fuel more := by
  induction h using bound_induction with
  | zero more =>
    constructor
    all_goals intros; exact .unfinished
  | succ fuel more h ih => exact ⟨ih.statement_succ h, ih.block_succ, ih.statements_succ⟩

/-! ### Items -/

/-- A parameter is a base type and a declarator. -/
theorem moves_param (known : List String) (h : fuel ≤ more) :
    Moves 0 fuel 1 c (param known fuel) (param known more) := by
  unfold param
  refine .bind (moves_baseType known) ?_
  rintro ⟨type, start⟩ d
  refine .ite (fun _ => .lastEnd (.fail (by simp) _)) fun _ => ?_
  refine .bind (moves_declarator h).of fun decl d' => ?_
  exact .ite (fun _ => .fail (by simp) _) fun _ => .pure _

/-- Parameters stand between commas. -/
theorem moves_params (known : List String) (h : fuel ≤ more) (c : Cursor) :
    Moves 1 fuel 1 c (params known fuel) (params known more) := by
  induction h using bound_induction generalizing c with
  | zero more => exact .unfinished
  | succ fuel more h ih =>
    unfold params
    refine .bind (moves_param known h).call fun p d => .accept (fun d' => ?_) (.pure _)
    exact .bind (ih d').call fun ps e => .pure _

/-- A lone `void` stands for no parameters. -/
theorem moves_skipLoneVoid : Moves rank fuel 0 c skipLoneVoid skipLoneVoid := by
  unfold skipLoneVoid
  refine .kind (.secondKind (.ite (fun _ => ?_) fun _ => .pure _))
  exact .bind .advance_any fun _ d => .pure _

/-- There may be no parameters. -/
theorem moves_paramList (known : List String) (h : fuel ≤ more) :
    Moves 1 fuel 0 c (paramList known fuel) (paramList known more) := by
  unfold paramList
  refine .bind moves_skipLoneVoid fun _ d => .kind (.ite (fun _ => .pure _) fun _ => ?_)
  exact (moves_params known h d).of.any

/-- A function goes on after its base type with a name, and has a body or a semicolon. -/
theorem moves_function (known : List String) (returns : WrittenType) (start : Nat)
    (h : fuel ≤ more) :
    Moves 0 fuel 1 c (function known returns start fuel) (function known returns start more) := by
  unfold function
  refine .bind (.expectName _) fun name d => .bind .advance_any fun _ d' => ?_
  refine .bind (moves_paramList known h).of fun ps e => .bind (.expect _ _) fun close e' => ?_
  refine .kind (.ite (fun _ => ?_) fun _ => ?_)
  · -- A prototype ends with a semicolon, a definition with its block.
    exact .bind .advance_any fun semi _ => .pure _
  · exact .bind ((statementsMove known h).block e').of fun body _ => .pure _

/-- Members stand between commas, like variables. -/
theorem moves_members (type : WrittenType) (h : fuel ≤ more) (c : Cursor) :
    Moves 1 fuel 1 c (members type fuel) (members type more) := by
  induction h using bound_induction generalizing c with
  | zero more => exact .unfinished
  | succ fuel more h ih =>
    unfold members
    refine .bind (moves_declarator h).call fun decl d => ?_
    refine .ite (fun _ => .fail (by simp) _) fun _ => .peek ?_
    refine .ite (fun _ => .fail (by simp) _) fun _ => .accept (fun d' => ?_) (.pure _)
    exact .bind (ih d').call fun group e => .pure _

/-- Whether a function follows is seen without reading on. -/
theorem moves_nextIsFunction : Moves rank fuel 0 c nextIsFunction nextIsFunction := by
  unfold nextIsFunction
  refine .kind (.secondKind ?_)
  split <;> exact .pure _

/-- The fields of a record: semicolons, access specifiers and members after a base type, up to the
closing brace. -/
theorem moves_fields (known : List String) (h : fuel ≤ more) (c : Cursor) :
    Moves 1 fuel 0 c (fields known fuel) (fields known more) := by
  induction h using bound_induction generalizing c with
  | zero more => exact .unfinished
  | succ fuel more h ih =>
    unfold fields
    refine .kind (.ite (fun _ => .pure _) fun hend => ?_)
    have hk : c.kind ≠ .eof := by
      intro hk
      simp [hk] at hend
    -- Semicolons and access specifiers stand for no field.
    refine .ite (fun _ => .bind (.advance hk) fun _ d => (ih d).call) fun _ => ?_
    refine .ite (fun _ => .bind (.advance hk) fun _ d => ?_) fun _ => ?_
    · exact .bind (.expect _ _) fun _ d' => (ih d').call
    · refine .bind (moves_baseType known) ?_
      rintro ⟨type, _⟩ d
      refine .bind moves_nextIsFunction fun isFunction d' => ?_
      refine .ite (fun _ => .peek (.fail (by simp) _)) fun _ => ?_
      refine .ite (fun _ => .peek (.fail (by simp) _)) fun _ => ?_
      refine .bind (moves_members type h d').call fun group e => ?_
      refine .bind (.expect _ _) fun _ e' => ?_
      exact .bind (ih e').call fun rest _ => .pure _

/-- A record reads at least its keyword. -/
theorem moves_record (known : List String) (h : fuel ≤ more) :
    Moves 0 fuel 1 c (record known fuel) (record known more) := by
  unfold record
  refine .bind .advance_any fun _ d => .bind (.expectName _) fun name d' => ?_
  refine .bind (.expect _ _) fun _ e => .bind (moves_fields known h e).of fun fs e' => ?_
  exact .bind (.expect _ _) fun _ _ => .bind (.expect _ _) fun close _ => .pure _

/-- An item reads at least one token: a record, or a base type and what it starts. -/
theorem moves_item (known : List String) (h : fuel ≤ more) :
    Moves 0 fuel 1 c (item known fuel) (item known more) := by
  unfold item
  refine .kind (.ite (fun _ => ?_) fun _ => ?_)
  · exact .bind (moves_record known h).of fun r d => .pure _
  · refine .bind (moves_baseType known) ?_
    rintro ⟨type, start⟩ d
    refine .bind moves_nextIsFunction fun isFunction d' => .ite (fun _ => ?_) fun _ => ?_
    · exact .bind (moves_function known type start h).of fun f e => .pure _
    · exact .bind (moves_declarations type start h).of fun decls e => .pure _

/-- Items go on to the end of file, and on from an error as statements do. -/
theorem moves_items (known : List String) (h : fuel ≤ more) (c : Cursor) :
    Moves 1 fuel 0 c (items known fuel) (items known more) := by
  induction h using bound_induction generalizing c known with
  | zero more => exact .unfinished
  | succ fuel more h ih =>
    unfold items
    refine .kind (.ite (fun _ => .pure _) fun hk => ?_)
    refine .accept (fun d => (ih known d).call) ?_
    refine .bind (.recovering (moves_item known h).call hk) fun group d => ?_
    -- After an error no item is known, and reading goes on without one.
    cases group with
    | none => exact (ih known d).call
    | some group => exact .bind (ih _ d).call fun rest d' => .pure _

end Parser

end SmallCpp
