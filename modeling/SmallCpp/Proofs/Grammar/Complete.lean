import Mathlib.Tactic.IntervalCases
import SmallCpp.Proofs.Grammar
import SmallCpp.Proofs.Parser.Accepts

/-!
# The parser accepts what the grammar derives

For each level of the grammar a statement about the parser's function for that level. Below the
levels whose words have a fixed end, the function goes on after the word: there the statement says
what it makes of the word followed by anything that its loop accepts.
-/

namespace SmallCpp

namespace Parser

/-- The token ends what is read of level `n`: it adds nothing to an operand, and it is no binary
operator that binds tighter. -/
def Ends (n : Nat) (k : TokenKind) : Prop :=
  k.continuesOperand = false ∧ ∀ op, binaryOp? k = some op → op.level ≤ n

/-- Words of level 9 are read whole. The number of steps is in proportion to the length. -/
def ReadsAtom (w : List TokenKind) (e : Expr) : Prop :=
  ∀ fuel rest, 8 * w.length ≤ fuel + 4 → Accepts (primary fuel) w rest (·.bare = e)

/-- After a word of level 8 the forms after an operand go on with the steps that are left. -/
def ReadsOperand (w : List TokenKind) (e : Expr) : Prop :=
  ∀ fuel, 8 * w.length ≤ fuel + 4 → ∃ left, fuel + 5 ≤ left + 8 * w.length ∧
    ∀ w' rest Q, (∀ d : Expr, d.bare = e → Accepts (postfixRest left d) w' rest Q) →
      Accepts (primary fuel >>= postfixRest fuel) (w ++ w') rest Q

/-- Words of level 7 are read whole if nothing comes next that continues an operand. -/
def ReadsUnary (w : List TokenKind) (e : Expr) : Prop :=
  ∀ fuel rest, 8 * w.length ≤ fuel + 3 → (rest.headD .eof).continuesOperand = false →
    Accepts (unary fuel) w rest (·.bare = e)

/-- After a word of a level `n` of binary operators, the operators of at least the level `m ≤ n`
go on with the steps that are left. -/
def ReadsBinary (n : Nat) (w : List TokenKind) (e : Expr) : Prop :=
  ∀ fuel m, m ≤ n → 8 * w.length ≤ fuel + 2 → ∃ left, fuel + 4 ≤ left + 8 * w.length ∧
    ∀ w' rest Q, Ends n ((w' ++ rest).headD .eof) →
      (∀ d : Expr, d.bare = e → Accepts (binaryRest left m d) w' rest Q) →
        Accepts (binary fuel m) (w ++ w') rest Q

/-- Words of level 0 are read whole if nothing comes next that continues an expression. -/
def ReadsExpression (w : List TokenKind) (e : Expr) : Prop :=
  ∀ fuel rest, 8 * w.length ≤ fuel + 1 → ¬(rest.headD .eof).ContinuesExpression →
    Accepts (expression fuel) w rest (·.bare = e)

variable {w : List TokenKind} {e : Expr}

/-- An atom that is read whole is an operand, after which the forms go on. -/
theorem ReadsAtom.operand (h : ReadsAtom w e) (hw : 0 < w.length) : ReadsOperand w e :=
  fun fuel hfuel => ⟨fuel, by omega, fun _ _ _ hQ => .bind (h fuel _ hfuel) hQ⟩

/-- Increments and decrements continue an operand. -/
theorem stepOp?_eq_none {k : TokenKind} (hk : k.continuesOperand = false) : stepOp? k = none := by
  unfold stepOp?
  split <;> first | rfl | cases hk

/-- Nothing is added to an operand if the next token does not continue it. -/
theorem accepts_postfixRest {fuel : Nat} {rest : List TokenKind}
    (hk : (rest.headD .eof).continuesOperand = false) :
    Accepts (postfixRest (fuel + 1) e) [] rest (· = e) := by
  unfold postfixRest
  generalize hkind : rest.headD .eof = k at hk
  refine .onKind hkind ?_
  split
  · cases hk
  · cases hk
  · cases hk
  · rw [stepOp?_eq_none hk]
    exact .pure rfl

/-- What starts an operand is no operator before it. -/
theorem notUnary_of_startsOperand {k : TokenKind} (hk : k.startsOperand = true) :
    unaryOp? k = none ∧ stepOp? k = none := by
  cases k with
  | symbol s => cases s <;> first | exact ⟨rfl, rfl⟩ | cases hk
  | _ => exact ⟨rfl, rfl⟩

/-- An operand is read as an expression of level 7: the first token is no operator before it, and
nothing is added after it. -/
theorem ReadsOperand.unary (h : ReadsOperand w e) (hw : Starts TokenKind.startsOperand w) :
    ReadsUnary w e := by
  intro fuel rest hfuel hrest
  obtain ⟨fuel, rfl⟩ : ∃ f, fuel = f + 1 := ⟨fuel - 1, by have := hw.length_pos; omega⟩
  obtain ⟨left, hleft, hread⟩ := h fuel (by omega)
  obtain ⟨left, rfl⟩ : ∃ f, left = f + 1 := ⟨left - 1, by omega⟩
  unfold Parser.unary
  refine .look .peek fun t ht => ?_
  obtain ⟨hunary, hstep⟩ := notUnary_of_startsOperand (hw.headD_append rest .eof)
  rw [ht, hunary, hstep, ← List.append_nil w]
  refine hread _ _ _ fun d hd => (accepts_postfixRest hrest).imp ?_
  rintro _ rfl
  exact hd

/-- No operator follows if the next token is none of at least the level. -/
theorem accepts_binaryRest {fuel m : Nat} {rest : List TokenKind}
    (hk : ∀ op, binaryOp? (rest.headD .eof) = some op → op.level < m) :
    Accepts (binaryRest (fuel + 1) m e) [] rest (· = e) := by
  unfold binaryRest
  refine .onKind rfl ?_
  rw [List.nil_append]
  split
  · exact .pure rfl
  · next op hop => exact .pos (hk op hop) (.pure rfl)

/-- An expression of level 7 stands for one of any level of binary operators. -/
theorem ReadsUnary.binary {n : Nat} (h : ReadsUnary w e) (hw : 0 < w.length) :
    ReadsBinary n w e := by
  intro fuel m _ hfuel
  obtain ⟨fuel, rfl⟩ : ∃ f, fuel = f + 1 := ⟨fuel - 1, by omega⟩
  refine ⟨fuel, by omega, fun w' rest Q hk hQ => ?_⟩
  unfold Parser.binary
  exact .bind (h fuel _ (by omega) hk.1) hQ

/-- What ends the lower level ends the higher one, so a word of the higher level serves at the
lower. -/
theorem ReadsBinary.lower {n : Nat} (h : ReadsBinary (n + 1) w e) : ReadsBinary n w e := by
  intro fuel m hm hfuel
  obtain ⟨left, hleft, hread⟩ := h fuel m (by omega) hfuel
  exact ⟨left, hleft, fun w' rest Q hk =>
    hread w' rest Q ⟨hk.1, fun op hop => (hk.2 op hop).trans n.le_succ⟩⟩

/-- A word of a level of binary operators is read whole if no such operator comes next. -/
theorem ReadsBinary.whole {n fuel m : Nat} {rest : List TokenKind} (h : ReadsBinary n w e)
    (hm : m ≤ n) (hfuel : 8 * w.length ≤ fuel + 2)
    (hk : (rest.headD .eof).continuesOperand = false)
    (hop : ∀ op, binaryOp? (rest.headD .eof) = some op → op.level < m) :
    Accepts (Parser.binary fuel m) w rest (·.bare = e) := by
  obtain ⟨left, hleft, hread⟩ := h fuel m hm hfuel
  obtain ⟨left, rfl⟩ : ∃ f, left = f + 1 := ⟨left - 1, by omega⟩
  rw [← List.append_nil w]
  refine hread [] rest _ ⟨hk, fun op h => ((hop op h).trans_le hm).le⟩ fun d hd => ?_
  refine (accepts_binaryRest hop).imp ?_
  rintro _ rfl
  exact hd

/-- A word of the lowest level of binary operators is a whole expression if no assignment follows.
-/
theorem ReadsBinary.expression (h : ReadsBinary 1 w e) (hw : 0 < w.length) :
    ReadsExpression w e := by
  intro fuel rest hfuel hrest
  obtain ⟨fuel, rfl⟩ : ∃ f, fuel = f + 1 := ⟨fuel - 1, by omega⟩
  obtain ⟨hoperand, hbinary, hassign⟩ := TokenKind.not_continuesExpression_iff.mp hrest
  unfold Parser.expression
  rw [← List.append_nil w]
  have hop : ∀ op, binaryOp? (rest.headD .eof) = some op → op.level < 0 := by
    intro op h
    rw [hbinary] at h
    cases h
  refine .bind (h.whole (Nat.zero_le 1) (by omega) hoperand hop) fun d hd => ?_
  refine .onKind rfl ?_
  rw [List.nil_append, hassign]
  exact .pure hd

/-- The target is read with the binary operators, then the symbol of the assignment, and the value
as a whole expression: assignments associate to the right. -/
theorem readsExpression_assign (op : Option ArithOp) {target value : Expr}
    {wt wv : List TokenKind} (hplace : target.isPlace = true) (ht : ReadsBinary 1 wt target)
    (hv : ReadsExpression wv value) :
    ReadsExpression (wt ++ .symbol (assignSymbol op) :: wv)
      (.assign op target value .nowhere) := by
  intro fuel rest hfuel hrest
  rw [List.length_append, List.length_cons] at hfuel
  obtain ⟨fuel, rfl⟩ : ∃ f, fuel = f + 1 := ⟨fuel - 1, by omega⟩
  -- The symbol of an assignment is no binary operator, so the target ends before it.
  obtain ⟨hoperand, hbinary⟩ : (TokenKind.symbol (assignSymbol op)).continuesOperand = false ∧
      binaryOp? (.symbol (assignSymbol op)) = none := by
    rcases op with _ | op
    · exact ⟨rfl, rfl⟩
    · cases op <;> exact ⟨rfl, rfl⟩
  have hop : ∀ op', binaryOp? (.symbol (assignSymbol op)) = some op' → op'.level < 0 := by
    intro op' h
    rw [hbinary] at h
    cases h
  unfold Parser.expression
  refine .bind (ht.whole (Nat.zero_le 1) (by omega) hoperand hop) fun d hd => ?_
  refine .onKind (k := .symbol (assignSymbol op)) rfl ?_
  rw [assignOp?_symbol]
  refine .token .advance fun _ _ => .pos (by rw [← d.isPlace_bare, hd, hplace]) ?_
  refine .whole (hv fuel _ (by omega) hrest) fun v hv => .pure ?_
  rw [Expr.bare, hd, hv]

/-- The left side is read at the level of the operator, the right side one above it: operators of
one level associate to the left. -/
theorem readsBinary_binary (op : BinaryOp) {left right : Expr} {wl wr : List TokenKind}
    (hl : ReadsBinary op.level wl left) (hr : ReadsBinary (op.level + 1) wr right) :
    ReadsBinary op.level (wl ++ .symbol op.symbol :: wr) (.binary op left right .nowhere) := by
  intro fuel m hm hfuel
  rw [List.length_append, List.length_cons] at hfuel ⊢
  obtain ⟨left₁, hleft₁, hread⟩ := hl fuel m hm (by omega)
  obtain ⟨left₁, rfl⟩ : ∃ f, left₁ = f + 1 := ⟨left₁ - 1, by omega⟩
  refine ⟨left₁, by omega, fun w' rest Q hk hQ => ?_⟩
  -- The operator ends the left operand, which is of its own level.
  have hends : Ends op.level (.symbol op.symbol) := by
    constructor
    · rcases op with op | op | op <;> cases op <;> rfl
    · intro op' h
      rw [binaryOp?_symbol] at h
      cases h
      exact le_rfl
  rw [List.append_assoc]
  refine hread _ rest Q hends fun d hd => ?_
  unfold binaryRest
  refine .onKind (k := .symbol op.symbol) rfl ?_
  rw [binaryOp?_symbol]
  refine .neg (Nat.not_lt.mpr hm) (.token .advance fun _ _ => ?_)
  -- What ends the whole ends the right operand too, one level up.
  have hright : Accepts (Parser.binary left₁ (op.level + 1)) wr (w' ++ rest) (·.bare = right) :=
    hr.whole le_rfl (by omega) hk.1 fun op' h => Nat.lt_succ_of_le (hk.2 op' h)
  refine .bind hright fun d' hd' => hQ _ ?_
  rw [Expr.bare, hd, hd']

/-- An operator before an operand is read by its symbol, and then the operand. -/
theorem readsUnary_unary (op : UnaryOp) (h : ReadsUnary w e) :
    ReadsUnary (.symbol op.symbol :: w) (.unary op e .nowhere) := by
  intro fuel rest hfuel hrest
  rw [List.length_cons] at hfuel
  obtain ⟨fuel, rfl⟩ : ∃ f, fuel = f + 1 := ⟨fuel - 1, by omega⟩
  unfold Parser.unary
  refine .look .peek fun t ht => ?_
  rw [show t.kind = .symbol op.symbol from ht, unaryOp?_symbol]
  refine .token .advance fun _ _ => ?_
  refine .whole (h fuel _ (by omega) hrest) fun d hd => .pure ?_
  rw [Expr.bare, hd]

/-- A step of a place succeeds and reads nothing more. -/
theorem accepts_stepOf {op : StepOp} {fixity : Fixity} {target d : Expr} {start : Nat}
    {rest : List TokenKind} (hplace : target.isPlace = true) (hd : d.bare = target) :
    Accepts (stepOf op fixity d start) [] rest (·.bare = .step op fixity target .nowhere) := by
  refine .pos (by rw [← d.isPlace_bare, hd, hplace]) (.look .lastEnd fun _ _ => .pure ?_)
  rw [Expr.bare, hd]

/-- An increment or decrement before a place is read by its symbol, and then the place. -/
theorem readsUnary_step (op : StepOp) (hplace : e.isPlace = true) (h : ReadsUnary w e) :
    ReadsUnary (.symbol op.symbol :: w) (.step op .before e .nowhere) := by
  intro fuel rest hfuel hrest
  rw [List.length_cons] at hfuel
  obtain ⟨fuel, rfl⟩ : ∃ f, fuel = f + 1 := ⟨fuel - 1, by omega⟩
  unfold Parser.unary
  refine .look .peek fun t ht => ?_
  rw [show t.kind = .symbol op.symbol from ht, unaryOp?_stepSymbol, stepOp?_symbol]
  refine .token .advance fun _ _ => ?_
  exact .whole (h fuel _ (by omega) hrest) fun d hd => accepts_stepOf hplace hd

/-- An increment or decrement after a place is one pass of the loop after the operand. -/
theorem readsOperand_step (op : StepOp) (hplace : e.isPlace = true) (h : ReadsOperand w e) :
    ReadsOperand (w ++ [.symbol op.symbol]) (.step op .after e .nowhere) := by
  intro fuel hfuel
  rw [List.length_append, List.length_singleton] at hfuel ⊢
  obtain ⟨left, hleft, hread⟩ := h fuel (by omega)
  obtain ⟨left, rfl⟩ : ∃ f, left = f + 1 := ⟨left - 1, by omega⟩
  refine ⟨left, by omega, fun w' rest Q hQ => ?_⟩
  rw [List.append_assoc]
  refine hread _ rest Q fun d hd => ?_
  have hstep : Accepts (do
      let _ ← advance
      let stepped ← stepOf op .after d d.span.start
      postfixRest left stepped) (.symbol op.symbol :: w') rest Q :=
    .token .advance fun _ _ => .look (accepts_stepOf hplace hd) fun d' hd' => hQ d' hd'
  unfold postfixRest
  cases op <;> exact .onKind rfl hstep

/-- A subscript is one pass of the loop after the operand. -/
theorem readsOperand_index {base subscript : Expr} {wb ws : List TokenKind}
    (hb : ReadsOperand wb base) (hs : ReadsExpression ws subscript) :
    ReadsOperand (wb ++ .symbol .lBracket :: (ws ++ [.symbol .rBracket]))
      (.index base subscript .nowhere) := by
  intro fuel hfuel
  simp only [List.length_append, List.length_cons, List.length_nil] at hfuel ⊢
  obtain ⟨left, hleft, hread⟩ := hb fuel (by omega)
  obtain ⟨left, rfl⟩ : ∃ f, left = f + 1 := ⟨left - 1, by omega⟩
  refine ⟨left, by omega, fun w' rest Q hQ => ?_⟩
  simp only [List.append_assoc, List.cons_append, List.nil_append]
  refine hread _ rest Q fun d hd => ?_
  unfold postfixRest
  refine .onKind rfl (.token .advance fun _ _ => ?_)
  refine .bind (hs left _ (by omega) (TokenKind.not_continuesExpression_of_closes rfl))
    fun d' hd' => ?_
  refine .token (.expect .rBracket .indexClose) fun _ _ => hQ _ ?_
  rw [Expr.bare, hd, hd']

/-- A field is one pass of the loop after the operand. -/
theorem readsOperand_field {base : Expr} {wb : List TokenKind} (id : String)
    (hb : ReadsOperand wb base) :
    ReadsOperand (wb ++ [.symbol .dot, .identifier id]) (.field base id .nowhere) := by
  intro fuel hfuel
  simp only [List.length_append, List.length_cons, List.length_nil] at hfuel ⊢
  obtain ⟨left, hleft, hread⟩ := hb fuel (by omega)
  obtain ⟨left, rfl⟩ : ∃ f, left = f + 1 := ⟨left - 1, by omega⟩
  refine ⟨left, by omega, fun w' rest Q hQ => ?_⟩
  rw [List.append_assoc]
  refine hread _ rest Q fun d hd => ?_
  unfold postfixRest
  refine .onKind rfl (.token .advance fun _ _ => .token (.expectName id _) fun _ hid => ?_)
  refine .look .lastEnd fun _ _ => hQ _ ?_
  rw [Expr.bare, hd, hid]

/-- The words of arguments are read up to the closing parenthesis. -/
theorem accepts_argumentList {args : List (List TokenKind × Expr)} {fuel : Nat}
    {rest : List TokenKind}
    (hargs : ∀ arg ∈ args, Starts TokenKind.startsExpression arg.1 ∧ ReadsExpression arg.1 arg.2)
    (hfuel : 8 * (separated (args.map Prod.fst)).length + 1 < fuel) :
    Accepts (argumentList fuel) (separated (args.map Prod.fst)) (.symbol .rParen :: rest)
      (·.map Expr.bare = args.map Prod.snd) := by
  obtain ⟨fuel, rfl⟩ : ∃ f, fuel = f + 1 := ⟨fuel - 1, by omega⟩
  unfold argumentList
  cases args with
  | nil => exact .onKind rfl (.pos rfl (.pure rfl))
  | cons arg args =>
    have hstarts := starts_separated (hargs arg List.mem_cons_self).1 (args.map Prod.fst)
    refine .onKind rfl (.neg (hstarts.headD_ne rfl _ _) ?_)
    refine .separated (fun _ => true) (fun k => ¬k.ContinuesExpression) 0
      (fun fuel c _ => by rw [arguments]) (TokenKind.not_continuesExpression_of_closes rfl) ?_ ?_
      (List.cons_ne_nil _ _) (fun part hpart => ?_) fuel (by omega)
    · exact TokenKind.not_continuesExpression_of_closes rfl
    · simp
    · obtain ⟨hpartStarts, hread⟩ := hargs part hpart
      exact ⟨hpartStarts.mono fun _ _ => rfl, fun fuel rest hfuel => hread fuel rest (by omega)⟩

/-- A call of a named function is one pass of the loop, with the arguments read in between. -/
theorem readsOperand_call {callee : String} {args : List (List TokenKind × Expr)}
    (hcallee : ReadsOperand w (.name callee .nowhere))
    (hargs : ∀ arg ∈ args, Starts TokenKind.startsExpression arg.1 ∧ ReadsExpression arg.1 arg.2) :
    ReadsOperand (w ++ .symbol .lParen :: (separated (args.map Prod.fst) ++ [.symbol .rParen]))
      (.call callee .nowhere (args.map Prod.snd) .nowhere) := by
  intro fuel hfuel
  simp only [List.length_append, List.length_cons, List.length_nil] at hfuel ⊢
  obtain ⟨left, hleft, hread⟩ := hcallee fuel (by omega)
  obtain ⟨left, rfl⟩ : ∃ f, left = f + 1 := ⟨left - 1, by omega⟩
  refine ⟨left, by omega, fun w' rest Q hQ => ?_⟩
  simp only [List.append_assoc, List.cons_append, List.nil_append]
  refine hread _ rest Q fun d hd => ?_
  -- Without its span the callee is a name, so with its span it is one.
  obtain ⟨span, rfl⟩ : ∃ span, d = .name callee span := by
    cases d <;> cases hd
    exact ⟨_, rfl⟩
  unfold postfixRest
  refine .onKind rfl (.token .advance fun _ _ => ?_)
  refine .bind (accepts_argumentList hargs (by omega)) fun as has => ?_
  refine .token (.expect .rParen .argumentsClose) fun _ _ => hQ _ ?_
  rw [Expr.bare, Expr.bareAll_eq_map, has]

/-- A literal is one token. -/
theorem readsAtom_literal (lit : Literal) : ReadsAtom [lit.kind] (.literal lit .nowhere) := by
  intro fuel rest hfuel
  obtain ⟨fuel, rfl⟩ : ∃ f, fuel = f + 1 :=
    ⟨fuel - 1, by rw [List.length_singleton] at hfuel; omega⟩
  unfold primary
  refine .look .peek fun t ht => ?_
  have hatom : atom? t = some (.literal lit t.span) := by
    rw [atom?, show t.kind = lit.kind from ht]
    rcases lit with _ | b | _
    · rfl
    · cases b <;> rfl
    · rfl
  rw [hatom]
  refine .token (.advance ?_) fun _ _ => .pure rfl
  rcases lit with _ | b | _
  · simp [Literal.kind]
  · cases b <;> simp [Literal.kind]
  · simp [Literal.kind]

/-- A name is one token. -/
theorem readsAtom_name (id : String) : ReadsAtom [.identifier id] (.name id .nowhere) := by
  intro fuel rest hfuel
  obtain ⟨fuel, rfl⟩ : ∃ f, fuel = f + 1 :=
    ⟨fuel - 1, by rw [List.length_singleton] at hfuel; omega⟩
  unfold primary
  refine .look .peek fun t ht => ?_
  rw [atom?, show t.kind = .identifier id from ht]
  exact .token .advance fun _ _ => .pure rfl

/-- An expression in parentheses is read whole, whatever follows. -/
theorem readsAtom_group (h : ReadsExpression w e) :
    ReadsAtom (.symbol .lParen :: (w ++ [.symbol .rParen])) e := by
  intro fuel rest hfuel
  simp only [List.length_append, List.length_cons, List.length_nil] at hfuel
  obtain ⟨fuel, rfl⟩ : ∃ f, fuel = f + 1 := ⟨fuel - 1, by omega⟩
  unfold primary
  refine .look .peek fun t ht => ?_
  rw [atom?, show t.kind = .symbol .lParen from ht]
  refine .pos rfl (.token .advance fun _ _ => ?_)
  refine .bind (h fuel _ (by omega) (TokenKind.not_continuesExpression_of_closes rfl)) ?_
  exact fun d hd => .token (.expect .rParen .groupClose) fun _ _ => .pure hd

/-- What the parser makes of a word derived at a level, in the form for that level. -/
def Reads : Nat → List TokenKind → Expr → Prop
  | 0 => ReadsExpression
  | 7 => ReadsUnary
  | 8 => ReadsOperand
  | 9 => ReadsAtom
  | n => ReadsBinary n

/-- Each binary operator is at one of the levels that climb. -/
theorem reads_level (op : BinaryOp) : Reads op.level w e ↔ ReadsBinary op.level w e := by
  rcases op with op | op | op <;> cases op <;> exact Iff.rfl

/-- The right side of a binary operator is one level up. Above the last level of binary operators
that is level 7. -/
theorem Reads.next {op : BinaryOp} (h : Reads (op.level + 1) w e) (hw : 0 < w.length) :
    ReadsBinary (op.level + 1) w e := by
  have hmin := op.one_le_rank
  have hmax := op.rank_le_six
  rw [← op.level_eq_rank] at hmin hmax
  generalize op.level = n at *
  interval_cases n
  case «6» => exact ReadsUnary.binary h hw
  all_goals exact h

/-- By induction on the derivation, with one statement about the parser for each rule. -/
theorem reads_of_derives {n : Nat} (h : Derives n w e) : Reads n w e := by
  induction h with
  | @up n w e hn h ih =>
    have hw := h.length_pos
    interval_cases n
    case «0» => exact ReadsBinary.expression ih hw
    case «6» => exact ReadsUnary.binary ih hw
    case «7» => exact ReadsOperand.unary ih (h.startsOperand le_rfl)
    case «8» => exact ReadsAtom.operand ih hw
    all_goals exact ReadsBinary.lower ih
  | assign op hplace ht _ iht ihv =>
    have hunary : ReadsUnary _ _ := ReadsOperand.unary iht (ht.startsOperand le_rfl)
    exact readsExpression_assign op hplace (hunary.binary ht.length_pos) ihv
  | @binary n op _ _ _ _ hop _ hr ihl ihr =>
    -- the level of the grammar is the one by which the parser climbs
    obtain rfl : n = op.level := (BinaryOp.mem_ofLevel_iff.mp hop).trans op.level_eq_rank.symm
    exact (reads_level op).mpr
      (readsBinary_binary op ((reads_level op).mp ihl) (ihr.next hr.length_pos))
  | unary op _ ih => exact readsUnary_unary op ih
  | stepBefore op hplace _ ih => exact readsUnary_step op hplace ih
  | stepAfter op hplace _ ih => exact readsOperand_step op hplace ih
  | index _ _ ihb ihs => exact readsOperand_index ihb ihs
  | field id _ ih => exact readsOperand_field id ih
  | call _ hargs ihcallee ihargs =>
    exact readsOperand_call ihcallee fun arg harg =>
      ⟨(hargs arg harg).startsExpression, ihargs arg harg⟩
  | literal lit => exact readsAtom_literal lit
  | name id => exact readsAtom_name id
  | group _ ih => exact readsAtom_group ih

end Parser

end SmallCpp
