import SmallCpp.Proofs.Parser.Reports
import SmallCpp.Proofs.Progress

/-!
# The spans of what is read, and of errors

One lemma for each function of the parser: what it reads lies between the end of the token before it
and the end of its last token, nested and in order, and the error that it fails with takes its place
behind those before it. The rests of an operand take over what was read before them, so that their
lemmas start at the cursor where the operand started.

Most errors stand at the next token. Those that point back, at an operand, a declarator or a
parameter, point at something that was read without an error.
-/

namespace SmallCpp

variable {source : String} {tokens : List Token} {b c d : Cursor}

namespace Parser

/-! ### Expressions -/

variable (source tokens) in
/-- What the parsers of expressions take, and where they report errors. -/
structure ExpressionsLay (fuel : Nat) : Prop where
  expression : ∀ {c}, c.Tidy source tokens →
    Reports source tokens c (expression fuel) fun e d => Takes source tokens c d [e.outline]
  binary : ∀ {c} level, c.Tidy source tokens →
    Reports source tokens c (binary fuel level) fun e d => Takes source tokens c d [e.outline]
  binaryRest : ∀ {b c} level left, Takes source tokens b c [left.outline] →
    Reports source tokens c (binaryRest fuel level left) fun e d =>
      Takes source tokens b d [e.outline]
  unary : ∀ {c}, c.Tidy source tokens →
    Reports source tokens c (unary fuel) fun e d => Takes source tokens c d [e.outline]
  postfixRest : ∀ {b c} base, Takes source tokens b c [base.outline] →
    Reports source tokens c (postfixRest fuel base) fun e d => Takes source tokens b d [e.outline]
  argumentList : ∀ {c}, c.Tidy source tokens →
    Reports source tokens c (argumentList fuel) fun es d =>
      Takes source tokens c d (es.map Expr.outline)
  arguments : ∀ {c}, c.Tidy source tokens →
    Reports source tokens c (arguments fuel) fun es d =>
      Takes source tokens c d (es.map Expr.outline)
  primary : ∀ {c}, c.Tidy source tokens →
    Reports source tokens c (primary fuel) fun e d => Takes source tokens c d [e.outline]

/-- An expression of a single token has the span of the token. -/
theorem outline_atom {t : Token} {e : Expr} (h : atom? t = some e) :
    e.outline = .node t.span [] := by
  rcases t with ⟨kind, span⟩
  cases kind with
  | integer value =>
    obtain rfl := Option.some.inj h
    rfl
  | character value =>
    obtain rfl := Option.some.inj h
    rfl
  | identifier id =>
    obtain rfl := Option.some.inj h
    rfl
  | keyword word =>
    cases word with
    | trueWord | falseWord =>
      obtain rfl := Option.some.inj h
      rfl
    | _ => cases h
  | symbol sign => cases h
  | eof => cases h

/-- The span of a step, once its last token is read. An error stands at its operand. -/
theorem stepOf_lays {op : StepOp} {fixity : Fixity} {target : Expr} {start : Nat}
    (h : Takes source tokens b c [.node ⟨start, c.lastEnd⟩ [target.outline]])
    (hstart : start ≤ target.span.start) (hstop : target.span.stop ≤ c.lastEnd)
    (htarget : c.Blames source target.span) :
    Reports source tokens c (stepOf op fixity target start) fun e d =>
      Takes source tokens b d [e.outline] := by
  refine .ite (fun _ => .lastEnd (.pure ?_)) fun _ => .fail _ h.tidy htarget
  rw [Expr.outline, Nat.min_eq_left hstart, Nat.max_eq_right hstop]
  exact h

namespace ExpressionsLay

variable {fuel : Nat}

/-- An assignment spans its two sides. If its target is no storage, the error stands at the target.
-/
theorem expression_succ (ih : ExpressionsLay source tokens fuel) (hc : c.Tidy source tokens) :
    Reports source tokens c (Parser.expression (fuel + 1)) fun e d =>
      Takes source tokens c d [e.outline] := by
  unfold Parser.expression
  refine .bind (ih.binary 0 hc) fun target d htarget => .kind ?_
  split
  · exact .pure htarget
  · have hsign := htarget.skip htarget.tidy.takes
    refine .advance (.ite (fun _ => ?_) fun _ => .fail _ hsign.tidy hsign.blames_expr)
    refine .bind (ih.expression hsign.tidy) fun value e hvalue => .pure ?_
    have hjoin := (hsign.trans hvalue).join
    rwa [Expr.span_outline, Expr.span_outline] at hjoin

/-- A binary expression spans its operands. -/
theorem binaryRest_succ (ih : ExpressionsLay source tokens fuel) (level : Nat) (left : Expr)
    (hleft : Takes source tokens b c [left.outline]) :
    Reports source tokens c (Parser.binaryRest (fuel + 1) level left) fun e d =>
      Takes source tokens b d [e.outline] := by
  unfold Parser.binaryRest
  refine .kind ?_
  split
  · exact .pure hleft
  · have hsign := hleft.skip hleft.tidy.takes
    refine .ite (fun _ => .pure hleft) fun _ => .advance ?_
    -- the joined operand is the left one of what follows, and still starts at `b`
    refine .bind (ih.binary _ hsign.tidy) fun right d hright => ih.binaryRest level _ ?_
    have hjoin := (hsign.trans hright).join
    rwa [Expr.span_outline, Expr.span_outline] at hjoin

/-- A prefix operator stands in front of its operand, and the span starts with it. -/
theorem unary_succ (ih : ExpressionsLay source tokens fuel) (hc : c.Tidy source tokens) :
    Reports source tokens c (Parser.unary (fuel + 1)) fun e d =>
      Takes source tokens c d [e.outline] := by
  unfold Parser.unary
  refine .peek ?_
  split
  · -- an operator and its operand
    next op hop =>
    have hk : c.kind ≠ .eof := ne_eof_of_eq_some hop rfl
    have hsign := hc.opens hk
    refine .advance (.bind (ih.unary hsign.tidy) fun operand d hoperand => .pure ?_)
    have hjoin := hsign.prefixed (Cursor.lastEnd_advance hk) hoperand
    rwa [Expr.span_outline] at hjoin
  · -- a step in front of its operand
    next op _ hop =>
    have hk : c.kind ≠ .eof := ne_eof_of_eq_some hop rfl
    have hsign := hc.opens hk
    refine .advance (.bind (ih.unary hsign.tidy) fun target d htarget => ?_)
    obtain ⟨-, hstart, hstop⟩ := htarget.row.head
    rw [Expr.span_outline] at hstart hstop
    have hlt := hsign.start_lt
    exact stepOf_lays (hsign.node htarget) (by omega) hstop htarget.blames_expr
  · exact .bind (ih.primary hc) fun base d hbase => ih.postfixRest base hbase

/-- A postfix operator ends the span of what it stands behind. -/
theorem postfixRest_succ (ih : ExpressionsLay source tokens fuel) (base : Expr)
    (hbase : Takes source tokens b c [base.outline]) :
    Reports source tokens c (Parser.postfixRest (fuel + 1) base) fun e d =>
      Takes source tokens b d [e.outline] := by
  have hsign := hbase.skip hbase.tidy.takes
  unfold Parser.postfixRest
  refine .kind ?_
  -- whatever is read behind the operand, the whole still starts where the operand does
  split
  · -- a subscript
    refine .advance (.bind (ih.expression hsign.tidy) fun subscript d hsubscript => ?_)
    refine .bind (.expect _ _ hsubscript.tidy) fun close e hclose => ih.postfixRest _ ?_
    obtain ⟨hclose, -, hstop⟩ := hclose
    have hextend := ((hsign.trans hsubscript).skip hclose.toTakes).extend
    rwa [Expr.span_outline, ← hstop] at hextend
  · -- a member
    refine .advance (.bind (.expectName _ hsign.tidy) fun member d hmember => ?_)
    refine .lastEnd (ih.postfixRest _ ?_)
    have hextend := (hsign.skip hmember.toTakes).extend
    rwa [Expr.span_outline] at hextend
  · split
    · refine .advance (.bind (ih.argumentList hsign.tidy) fun args d hargs => ?_)
      refine .bind (.expect _ _ hargs.tidy) fun close e hclose => ih.postfixRest _ ?_
      obtain ⟨hclose, -, hstop⟩ := hclose
      have hextend := ((hsign.trans hargs).skip hclose.toTakes).extend
      rw [Expr.outline, Expr.outlines_eq_map, hstop]
      exact hextend
    · -- what is called has no name: the error stands at the parenthesis
      exact .peek (.fail_peek _ hbase.tidy)
  · -- a step behind its operand, or the end of the phrase
    split
    · refine .advance (.bind ?_ fun stepped d hstepped => ih.postfixRest stepped hstepped)
      have hextend := hsign.extend
      rw [Expr.span_outline] at hextend
      obtain ⟨-, -, hstop⟩ := hsign.row.head
      rw [Expr.span_outline] at hstop
      exact stepOf_lays hextend (Nat.le_refl _) hstop hsign.blames_expr
    · exact .pure hbase

/-- Arguments are laid in order, with the commas between them. -/
theorem arguments_succ (ih : ExpressionsLay source tokens fuel) (hc : c.Tidy source tokens) :
    Reports source tokens c (Parser.arguments (fuel + 1)) fun es d =>
      Takes source tokens c d (es.map Expr.outline) := by
  unfold Parser.arguments
  exact .bind (ih.expression hc) fun arg d harg => .commaRest harg ih.arguments

/-- A primary expression in parentheses keeps its own span. -/
theorem primary_succ (ih : ExpressionsLay source tokens fuel) (hc : c.Tidy source tokens) :
    Reports source tokens c (Parser.primary (fuel + 1)) fun e d =>
      Takes source tokens c d [e.outline] := by
  unfold Parser.primary
  refine .peek ?_
  split
  · next e he =>
    have hk : c.kind ≠ .eof := ne_eof_of_atom he
    refine .advance (.pure ?_)
    rw [outline_atom he]
    exact (hc.opens hk).leaf (Cursor.lastEnd_advance hk)
  · refine .ite (fun _ => .advance ?_) fun _ => .noExpression hc
    -- the parentheses stay outside the span, but inside what was read
    refine .bind (ih.expression hc.takes.tidy) fun e d he => ?_
    refine .bind (.expect _ _ he.tidy) fun _ d' hclose => .pure ?_
    exact (hc.takes.trans he).skip hclose.1.toTakes

end ExpressionsLay

/-- The parsers of expressions call each other with one step less. -/
theorem expressionsLay (fuel : Nat) : ExpressionsLay source tokens fuel := by
  induction fuel with
  | zero =>
    constructor
    case binaryRest => exact fun _ _ hleft => .unfinished hleft.tidy
    case postfixRest => exact fun _ hbase => .unfinished hbase.tidy
    all_goals intros; exact .unfinished ‹_›
  | succ fuel ih =>
    exact {
      expression := ih.expression_succ
      binary := fun level hc =>
        .bind (ih.unary hc) fun left _ hleft => ih.binaryRest level left hleft
      binaryRest := ih.binaryRest_succ
      unary := ih.unary_succ
      postfixRest := ih.postfixRest_succ
      argumentList := fun hc => .kind (.ite (fun _ => .pure (.refl hc)) fun _ => ih.arguments hc)
      arguments := ih.arguments_succ
      primary := ih.primary_succ }

/-- An expression lies between the cursor and the end of its last token. -/
theorem expression_lays (fuel : Nat) (hc : c.Tidy source tokens) :
    Reports source tokens c (expression fuel) fun e d => Takes source tokens c d [e.outline] :=
  (expressionsLay fuel).expression hc

/-! ### Declarators and initializers -/

/-- A base type is one token and has no bounds. -/
theorem baseType_opens (known : List String) (hc : c.Tidy source tokens) :
    Reports source tokens c (baseType known) fun r d =>
      Opens source tokens c d ∧ r.1.outlines = [] ∧ r.2 = c.peek.span.start := by
  unfold baseType
  refine .peek ?_
  dsimp only
  split
  case h_6 => exact .fail_peek _ hc
  case h_5 name hk =>
    have hk : c.kind ≠ .eof := by simp [Cursor.kind, hk]
    refine .ite (fun _ => ?_) fun _ => .fail_peek _ hc
    exact .advance (.pure ⟨hc.opens hk, rfl, rfl⟩)
  all_goals
    next hk =>
      have hk : c.kind ≠ .eof := by simp [Cursor.kind, hk]
      exact .advance (.pure ⟨hc.opens hk, rfl, rfl⟩)

/-- Bounds are laid in order. A bound that is not allowed is reported at its bracket. -/
theorem bounds_lays (name : String) (bare : Bool) (fuel : Nat) (hc : c.Tidy source tokens) :
    Reports source tokens c (bounds name bare fuel) fun dims d =>
      Takes source tokens c d (boundOutlines dims) := by
  induction fuel generalizing c with
  | zero => exact .unfinished hc
  | succ fuel ih =>
    unfold bounds
    refine .peek (.ite (fun hk => .advance ?_) fun _ => .pure (.refl hc))
    have hk : c.kind = .symbol .lBracket := hk
    have hk : c.kind ≠ .eof := by simp [hk]
    have hopening := hc.opens hk
    refine .ite (fun _ => ?_) fun _ => ?_
    · -- the bracket has been read, and the error stands at it
      exact .fail _ hopening.tidy (hopening.leaf (Cursor.lastEnd_advance hk)).blames
    · refine .bind (.accept _ hopening.tidy) fun closed d hd => .ite (fun _ => ?_) fun _ => ?_
      · refine .bind (ih hd.tidy) fun dims e hdims => .pure ?_
        exact (hopening.skip hd).trans hdims
      · refine .bind (expression_lays fuel hd.tidy) fun bound e hbound => ?_
        refine .bind (.expect _ _ hbound.tidy) fun _ e' hclose => ?_
        have hread := ((hopening.skip hd).trans hbound).skip hclose.1.toTakes
        exact .bind (ih hread.tidy) fun dims e₂ hdims => .pure (hread.trans hdims)

/-- A declared name is at least one token. -/
theorem declaredName_opens (hc : c.Tidy source tokens) :
    Reports source tokens c declaredName fun _ d => Opens source tokens c d := by
  unfold declaredName
  refine .bind (.accept _ hc) fun paren d hparen => .ite (fun _ => ?_) fun _ => ?_
  · refine .bind (.expect _ _ hparen.tidy) fun _ d' hamp => ?_
    have hamp := hamp.1.behind hparen
    refine .bind (.expectName _ hamp.tidy) fun name e hname => ?_
    have hname := hamp.also hname.toTakes
    exact .bind (.expect _ _ hname.tidy) fun _ e' hclose => .pure (hname.also hclose.1.toTakes)
  · refine .bind (.accept _ hparen.tidy) fun amp d' hamp => ?_
    have hmarks := hparen.skip hamp
    refine .ite (fun _ => ?_) fun _ => ?_
    · exact .bind (.expectName _ hmarks.tidy) fun name e hname => .pure (hname.behind hmarks)
    · exact .bind (.expectName _ hmarks.tidy) fun name e hname => .pure (hname.behind hmarks)

/-- A declarator spans its tokens, and its bounds stand behind its name. -/
theorem declarator_lays (fuel : Nat) (hc : c.Tidy source tokens) :
    Reports source tokens c (declarator fuel) fun r d => r.span = ⟨c.peek.span.start, d.lastEnd⟩ ∧
      ∃ m, Opens source tokens c m ∧ Takes source tokens m d (boundOutlines r.bounds) := by
  unfold declarator
  refine .peek (.bind (declaredName_opens hc) ?_)
  rintro ⟨name, byRef, bare⟩ m hname
  refine .bind (bounds_lays name bare fuel hname.tidy) fun dims d hdims => .lastEnd (.pure ?_)
  exact ⟨rfl, m, hname, hdims⟩

variable (source tokens) in
/-- What the parsers of initializers take, and where they report errors. -/
structure InitializersLay (fuel : Nat) : Prop where
  initializer : ∀ {c}, c.Tidy source tokens →
    Reports source tokens c (initializer fuel) fun i d => Takes source tokens c d [i.outline]
  initializers : ∀ {c}, c.Tidy source tokens →
    Reports source tokens c (initializers fuel) fun is d =>
      Takes source tokens c d (is.map Initializer.outline)

/-- The two parsers of initializers call each other with one step less. -/
theorem initializersLay (fuel : Nat) : InitializersLay source tokens fuel := by
  induction fuel with
  | zero => exact ⟨.unfinished, .unfinished⟩
  | succ fuel ih =>
    constructor
    · intro c hc
      unfold Parser.initializer
      refine .peek (.ite (fun hk => .advance ?_) fun _ => ?_)
      · have hk : c.kind = .symbol .lBrace := hk
        have hopening := hc.opens (by simp [hk])
        refine .bind (ih.initializers hopening.tidy) fun items d hitems => ?_
        refine .bind (.expect _ _ hitems.tidy) fun close e hclose => .pure ?_
        obtain ⟨hclose, -, hstop⟩ := hclose
        rw [Initializer.outline, Initializer.outlines_eq_map, hstop]
        exact hopening.node (hitems.skip hclose.toTakes)
      · exact .bind (expression_lays fuel hc) fun e d he => .pure he
    · intro c hc
      unfold Parser.initializers
      refine .kind (.ite (fun _ => .pure (.refl hc)) fun _ => ?_)
      exact .bind (ih.initializer hc) fun item d hitem => .commaRest hitem ih.initializers

/-- An initializer lies behind its equals sign. -/
theorem initializer?_lays (fuel : Nat) (hc : c.Tidy source tokens) :
    Reports source tokens c (initializer? fuel) fun init d =>
      Takes source tokens c d (init.toList.map Initializer.outline) := by
  unfold initializer?
  refine .bind (.accept _ hc) fun sign d hsign => .ite (fun _ => ?_) fun _ => .pure hsign
  refine .bind ((initializersLay fuel).initializer hsign.tidy) fun init e hinit => .pure ?_
  exact hsign.trans hinit

/-- A variable spans its name, its bounds and its initializer. -/
theorem varDecl_lays {type : WrittenType} (htype : type.outlines = []) (fuel : Nat)
    (hc : c.Tidy source tokens) :
    Reports source tokens c (varDecl type fuel) fun decl d =>
      Takes source tokens c d [decl.outline] := by
  unfold varDecl
  refine .bind (declarator_lays fuel hc) ?_
  rintro r d ⟨hspan, m, hname, hbounds⟩
  refine .bind (initializer?_lays fuel hbounds.tidy) fun init e hinit => .lastEnd (.pure ?_)
  rw [VarDecl.outline, WrittenType.outlines_withBounds, htype, List.append_nil, hspan]
  exact hname.node (hbounds.trans hinit)

/-- Variables are laid in order. -/
theorem varDecls_lays {type : WrittenType} (htype : type.outlines = []) (fuel : Nat)
    (hc : c.Tidy source tokens) :
    Reports source tokens c (varDecls type fuel) fun decls d =>
      Takes source tokens c d (decls.map VarDecl.outline) := by
  induction fuel generalizing c with
  | zero => exact .unfinished hc
  | succ fuel ih =>
    unfold varDecls
    exact .bind (varDecl_lays htype fuel hc) fun decl d hdecl => .commaRest hdecl ih

/-- A declaration whose base type has been read from `b` to `c`; an error may point back at it. -/
theorem declarations_lays {type : WrittenType} (htype : type.outlines = []) (fuel : Nat)
    (hb : Opens source tokens b c) :
    Reports source tokens c (declarations type b.peek.span.start fuel) fun decls d =>
      Takes source tokens c d (decls.map VarDecl.outline) := by
  unfold declarations
  refine .ite (fun _ => .lastEnd ?_) fun _ => ?_
  · exact .fail _ hb.tidy (hb.node (.refl hb.tidy)).blames
  · refine .bind (varDecls_lays htype fuel hb.tidy) fun decls d hdecls => ?_
    exact .bind (.expect _ _ hdecls.tidy) fun _ e hsemi => .pure (hdecls.skip hsemi.1.toTakes)

/-! ### Statements -/

/-- A declaration spans its base type and its variables. -/
theorem declareStatement_lays (known : List String) (fuel : Nat) (hc : c.Tidy source tokens) :
    Reports source tokens c (declareStatement known fuel) fun s d =>
      Takes source tokens c d [s.outline] := by
  unfold declareStatement
  refine .bind (baseType_opens known hc) ?_
  rintro ⟨type, start⟩ d ⟨hopens, htype, rfl⟩
  refine .bind (declarations_lays htype fuel hopens) fun decls e hdecls => ?_
  exact .lastEnd (.pure (hopens.node hdecls))

/-- A `return` statement spans its keyword and its semicolon. -/
theorem returnStatement_lays (fuel : Nat) (hk : c.kind = .keyword .returnWord)
    (hc : c.Tidy source tokens) :
    Reports source tokens c (returnStatement fuel) fun s d =>
      Takes source tokens c d [s.outline] := by
  have hword := hc.opens (by simp [hk])
  have hvalue : Reports source tokens c.advance (returnValue? fuel) fun value d =>
      Takes source tokens c.advance d (value.toList.map Expr.outline) := by
    refine .kind (.ite (fun _ => .pure (.refl hword.tidy)) fun _ => ?_)
    exact .bind (expression_lays fuel hword.tidy) fun e d he => .pure he
  unfold returnStatement
  refine .advance (.bind hvalue fun value d hvalue => ?_)
  refine .bind (.expect _ _ hvalue.tidy) fun close e hclose => .pure ?_
  obtain ⟨hclose, -, hstop⟩ := hclose
  rw [Statement.outline, hstop]
  exact hword.node (hvalue.skip hclose.toTakes)

/-- An expression statement ends with its semicolon. -/
theorem expressionStatement_lays (fuel : Nat) (hc : c.Tidy source tokens) :
    Reports source tokens c (expressionStatement fuel) fun s d =>
      Takes source tokens c d [s.outline] := by
  unfold expressionStatement
  refine .bind (expression_lays fuel hc) fun e d he => ?_
  refine .bind (.expect _ _ he.tidy) fun close e' hclose => .pure ?_
  obtain ⟨hclose, -, hstop⟩ := hclose
  have hextend := (he.skip hclose.toTakes).extend
  rw [Statement.outline, hstop]
  rwa [Expr.span_outline] at hextend

/-- A condition lies between its parentheses. -/
theorem condition_lays (opening : Expected) (fuel : Nat) (hc : c.Tidy source tokens) :
    Reports source tokens c (condition opening fuel) fun e d =>
      Takes source tokens c d [e.outline] := by
  unfold condition
  refine .bind (.expect _ _ hc) fun _ d hopening => ?_
  refine .bind (expression_lays fuel hopening.1.tidy) fun e d' he => ?_
  refine .bind (.expect _ _ he.tidy) fun _ e' hclose => .pure ?_
  exact (hopening.1.trans he).skip hclose.1.toTakes

variable (source tokens) in
/-- What the parsers of statements lay, and where they report errors; a block ends with its last
token. An error inside a block may have been recovered from. -/
structure StatementsLay (known : List String) (fuel : Nat) : Prop where
  statement : ∀ {c}, c.Tidy source tokens →
    Reports source tokens c (statement known fuel) fun s d => Lays source tokens c d [s.outline]
  block : ∀ {c}, c.Tidy source tokens → Reports source tokens c (block known fuel) fun b d =>
    Lays source tokens c d [b.outline] ∧ b.span.stop = d.lastEnd
  statements : ∀ {c}, c.Tidy source tokens →
    Reports source tokens c (statements known fuel) fun ss d =>
      Lays source tokens c d (ss.map Statement.outline)

namespace StatementsLay

variable {known : List String} {fuel : Nat}

/-- A statement spans its tokens, and its parts lie in it in order. -/
theorem statement_succ (ih : StatementsLay source tokens known fuel)
    (hc : c.Tidy source tokens) :
    Reports source tokens c (Parser.statement known (fuel + 1)) fun s d =>
      Lays source tokens c d [s.outline] := by
  unfold Parser.statement
  refine .kind ?_
  split
  · -- a block
    refine .bind (ih.block hc) fun body d hbody => .pure ?_
    rw [Statement.outline, Statement.outlines_eq_map]
    exact hbody.1
  · -- a conditional
    next hk =>
    have hword := hc.opens (by simp [hk])
    refine .advance (.bind (condition_lays _ fuel hword.tidy) fun cond d hcond => ?_)
    refine .bind (ih.statement hcond.tidy) fun thenBranch e hthen => .kind ?_
    have hboth := hcond.toLays.trans hthen
    refine .ite (fun _ => ?_) fun _ => .lastEnd (.pure (hword.throughout hboth))
    have helse := hboth.skip hthen.tidy.takes.toLays
    refine .advance (.bind (ih.statement helse.tidy) fun elseBranch e' hbranch => ?_)
    exact .lastEnd (.pure (hword.throughout (helse.trans hbranch)))
  · -- a loop
    next hk =>
    have hword := hc.opens (by simp [hk])
    refine .advance (.bind (condition_lays _ fuel hword.tidy) fun cond d hcond => ?_)
    refine .bind (ih.statement hcond.tidy) fun body e hbody => ?_
    exact .lastEnd (.pure (hword.throughout (hcond.toLays.trans hbody)))
  · next hk => exact (returnStatement_lays fuel hk hc).imp fun _ _ hs => hs.toLays
  · -- a lone semicolon
    next hk =>
    have hk : c.kind ≠ .eof := by simp [hk]
    exact .advance (.pure ((hc.opens hk).leaf (Cursor.lastEnd_advance hk)).toLays)
  · refine .ite (fun _ => ?_) fun _ => ?_
    · exact (declareStatement_lays known fuel hc).imp fun _ _ hs => hs.toLays
    · exact (expressionStatement_lays fuel hc).imp fun _ _ hs => hs.toLays

/-- A block spans its braces. -/
theorem block_succ (ih : StatementsLay source tokens known fuel) (hc : c.Tidy source tokens) :
    Reports source tokens c (Parser.block known (fuel + 1)) fun b d =>
      Lays source tokens c d [b.outline] ∧ b.span.stop = d.lastEnd := by
  unfold Parser.block
  refine .bind (.expect _ _ hc) ?_
  rintro opening d ⟨hopening, rfl, -⟩
  refine .bind (ih.statements hopening.tidy) fun body e hbody => ?_
  refine .bind (.expect _ _ hbody.tidy) fun close e' hclose => .pure ?_
  obtain ⟨hclose, -, hstop⟩ := hclose
  refine ⟨?_, hstop⟩
  rw [Block.outline, hstop]
  exact hopening.throughout (hbody.skip hclose.toLays)

/-- Statements are laid in order. A statement that fails leaves nothing, and those behind it start
where reading goes on. -/
theorem statements_succ (ih : StatementsLay source tokens known fuel)
    (hc : c.Tidy source tokens) :
    Reports source tokens c (Parser.statements known (fuel + 1)) fun ss d =>
      Lays source tokens c d (ss.map Statement.outline) := by
  unfold Parser.statements
  refine .kind (.ite (fun _ => .pure (.refl hc)) fun _ => ?_)
  have hmoves := (statementsMove known (Nat.le_refl fuel)).statement c
  refine .bind (.recovering hc hmoves (ih.statement hc)) fun s d hs => ?_
  refine .bind (ih.statements hs.tidy) fun ss e hss => .pure ?_
  have hboth := hs.trans hss
  -- what failed lays nothing, and the rest goes on behind it
  cases s with
  | none => exact hboth
  | some s => exact hboth

end StatementsLay

/-- The three parsers of statements call each other with one step less. -/
theorem statementsLay (known : List String) (fuel : Nat) :
    StatementsLay source tokens known fuel := by
  induction fuel with
  | zero => exact ⟨.unfinished, .unfinished, .unfinished⟩
  | succ fuel ih => exact ⟨ih.statement_succ, ih.block_succ, ih.statements_succ⟩

/-! ### Items -/

/-- An error may point back at the parameter, or only at its type. -/
theorem param_lays (known : List String) (fuel : Nat) (hc : c.Tidy source tokens) :
    Reports source tokens c (param known fuel) fun p d => Takes source tokens c d [p.outline] := by
  unfold param
  refine .bind (baseType_opens known hc) ?_
  rintro ⟨type, start⟩ d ⟨hopens, htype, rfl⟩
  refine .ite (fun _ => .lastEnd ?_) fun _ => ?_
  · exact .fail _ hopens.tidy (hopens.node (.refl hopens.tidy)).blames
  refine .bind (declarator_lays fuel hopens.tidy) ?_
  rintro r e ⟨hspan, m, hname, hbounds⟩
  have hparam : Takes source tokens c e [.node ⟨c.peek.span.start, r.span.stop⟩
      (type.withBounds r.bounds).outlines] := by
    rw [WrittenType.outlines_withBounds, htype, List.append_nil, hspan]
    exact hopens.node (hname.toTakes.trans hbounds)
  exact .ite (fun _ => .fail _ hparam.tidy hparam.blames) fun _ => .pure hparam

/-- Parameters are laid in order. -/
theorem params_lays (known : List String) (fuel : Nat) (hc : c.Tidy source tokens) :
    Reports source tokens c (params known fuel) fun ps d =>
      Takes source tokens c d (ps.map Param.outline) := by
  induction fuel generalizing c with
  | zero => exact .unfinished hc
  | succ fuel ih =>
    unfold params
    exact .bind (param_lays known fuel hc) fun p d hp => .commaRest hp ih

/-- A lone `void` lays nothing. -/
theorem paramList_lays (known : List String) (fuel : Nat) (hc : c.Tidy source tokens) :
    Reports source tokens c (paramList known fuel) fun ps d =>
      Takes source tokens c d (ps.map Param.outline) := by
  have hskip : Reports source tokens c skipLoneVoid fun _ d => Takes source tokens c d [] := by
    refine .kind (.secondKind (.ite (fun _ => ?_) fun _ => .pure (.refl hc)))
    exact .advance (.pure hc.takes)
  unfold paramList
  refine .bind hskip fun _ d hvoid => .kind (.ite (fun _ => .pure hvoid) fun _ => ?_)
  exact (params_lays known fuel hvoid.tidy).imp fun ps e hps => hvoid.trans hps

/-- A function whose result type has been read from `b` to `c`. -/
theorem function_lays {returns : WrittenType} (hreturns : returns.outlines = [])
    (known : List String) (fuel : Nat) (hb : Opens source tokens b c) :
    Reports source tokens c (function known returns b.peek.span.start fuel) fun f d =>
      Lays source tokens b d [f.outline] := by
  unfold function
  refine .bind (.expectName _ hb.tidy) fun name d hname => ?_
  have hparen := hname.skip hname.tidy.takes
  refine .advance (.bind (paramList_lays known fuel hparen.tidy) fun ps e hps => ?_)
  refine .bind (.expect _ _ hps.tidy) fun close e' hclose => ?_
  obtain ⟨hclose, -, hstop⟩ := hclose
  have hsignature := (hparen.trans hps).skip hclose.toTakes
  refine .kind (.ite (fun hk => .advance (.pure ?_)) fun _ => ?_)
  · -- no body: the semicolon is the last token
    have hk : e'.kind ≠ .eof := by simp [hk]
    have hsemi := hclose.tidy.takes
    rw [FunctionDecl.outline, hreturns, hstop, Cursor.lastEnd_advance hk, Nat.max_eq_left hsemi.le]
    exact (hb.node (hsignature.trans hsemi)).toLays
  · refine .bind ((statementsLay known fuel).block hclose.tidy) fun body f hbody => .pure ?_
    obtain ⟨hbody, hend⟩ := hbody
    rw [FunctionDecl.outline, hreturns, hstop, hend, Nat.max_eq_left hbody.le]
    exact hb.throughout (hsignature.toLays.trans hbody)

/-- Members are laid in order, like variables. -/
theorem members_lays {type : WrittenType} (htype : type.outlines = []) (fuel : Nat)
    (hc : c.Tidy source tokens) :
    Reports source tokens c (members type fuel) fun fs d =>
      Takes source tokens c d (fs.map FieldDecl.outline) := by
  induction fuel generalizing c with
  | zero => exact .unfinished hc
  | succ fuel ih =>
    unfold members
    refine .bind (declarator_lays fuel hc) ?_
    rintro r d ⟨hspan, m, hname, hbounds⟩
    have hfield : Takes source tokens c d
        [FieldDecl.outline ⟨r.name, type.withBounds r.bounds, r.span⟩] := by
      rw [FieldDecl.outline, WrittenType.outlines_withBounds, htype, List.append_nil, hspan]
      exact hname.node hbounds
    refine .ite (fun _ => .fail _ hfield.tidy hfield.blames) fun _ => .peek ?_
    exact .ite (fun _ => .fail_peek _ hfield.tidy) fun _ => .commaRest hfield ih

/-- Looking ahead reads nothing. -/
theorem nextIsFunction_stays (hc : c.Tidy source tokens) :
    Reports source tokens c nextIsFunction fun _ d => Takes source tokens c d [] ∧ d = c := by
  refine .kind (.secondKind ?_)
  split <;> exact .pure ⟨.refl hc, rfl⟩

/-- Fields are laid in order; semicolons and access specifiers lay nothing. -/
theorem fields_lays (known : List String) (fuel : Nat) (hc : c.Tidy source tokens) :
    Reports source tokens c (fields known fuel) fun fs d =>
      Takes source tokens c d (fs.map FieldDecl.outline) := by
  induction fuel generalizing c with
  | zero => exact .unfinished hc
  | succ fuel ih =>
    have hfirst := hc.takes
    unfold fields
    refine .kind (.ite (fun _ => .pure (.refl hc)) fun _ => .ite (fun _ => .advance ?_) fun _ => ?_)
    · -- a lone semicolon
      exact (ih hfirst.tidy).imp fun fs d hfs => hfirst.trans hfs
    refine .ite (fun _ => .advance ?_) fun _ => ?_
    · -- an access specifier
      refine .bind (.expect _ _ hfirst.tidy) fun _ d hcolon => ?_
      have hread := hfirst.skip hcolon.1.toTakes
      exact (ih hread.tidy).imp fun fs e hfs => hread.trans hfs
    · refine .bind (baseType_opens known hc) ?_
      rintro ⟨type, start⟩ d ⟨htypeRead, htype, -⟩
      refine .bind (nextIsFunction_stays htypeRead.tidy) ?_
      rintro isFunction _ ⟨hlook, rfl⟩
      refine .ite (fun _ => .peek (.fail_peek _ hlook.tidy)) fun _ => ?_
      refine .ite (fun _ => .peek (.fail_peek _ hlook.tidy)) fun _ => ?_
      refine .bind (members_lays htype fuel hlook.tidy) fun group e hgroup => ?_
      refine .bind (.expect _ _ hgroup.tidy) fun _ e' hsemi => ?_
      have hread := (htypeRead.toTakes.trans hgroup).skip hsemi.1.toTakes
      refine .bind (ih hread.tidy) fun more e₂ hmore => .pure ?_
      rw [List.map_append]
      exact hread.trans hmore

/-- A record spans its keyword and its semicolon. -/
theorem record_lays (known : List String) (fuel : Nat) (hk : c.kind ≠ .eof)
    (hc : c.Tidy source tokens) :
    Reports source tokens c (record known fuel) fun r d => Takes source tokens c d [r.outline] := by
  have hword := hc.opens hk
  unfold record
  refine .advance (.bind (.expectName _ hword.tidy) fun name d hname => ?_)
  refine .bind (.expect _ _ hname.tidy) fun _ d' hopening => ?_
  refine .bind (fields_lays known fuel hopening.1.tidy) fun fs e hfs => ?_
  refine .bind (.expect _ _ hfs.tidy) fun _ e' hclose => ?_
  refine .bind (.expect _ _ hclose.1.tidy) fun close e₂ hsemi => .pure ?_
  obtain ⟨hsemi, -, hstop⟩ := hsemi
  have hinner := (hname.skip hopening.1.toTakes).trans hfs
  rw [RecordDecl.outline, hstop]
  exact hword.node ((hinner.skip hclose.1.toTakes).skip hsemi.toTakes)

/-- An item spans its tokens; the variables of one declaration are items of their own. -/
theorem item_lays (known : List String) (fuel : Nat) (hc : c.Tidy source tokens) :
    Reports source tokens c (item known fuel) fun is d =>
      Lays source tokens c d (is.map Item.outline) := by
  unfold item
  refine .kind (.ite (fun hk => ?_) fun _ => ?_)
  · have hk : c.kind ≠ .eof := by
      intro heof
      simp [heof] at hk
    exact .bind (record_lays known fuel hk hc) fun r d hr => .pure hr.toLays
  · refine .bind (baseType_opens known hc) ?_
    rintro ⟨type, start⟩ d ⟨htypeRead, htype, rfl⟩
    -- looking ahead reads nothing, so the function's name comes right behind the type
    refine .bind (nextIsFunction_stays htypeRead.tidy) ?_
    rintro isFunction _ ⟨-, rfl⟩
    refine .ite (fun _ => ?_) fun _ => ?_
    · exact .bind (function_lays htype known fuel htypeRead) fun f e hf => .pure hf
    · refine .bind (declarations_lays htype fuel htypeRead) fun decls e hdecls => .pure ?_
      rw [List.map_map]
      exact (htypeRead.toTakes.trans hdecls).toLays

/-- Items are laid in order up to the end of file. -/
theorem items_lays (known : List String) (fuel : Nat) (hc : c.Tidy source tokens) :
    Reports source tokens c (items known fuel) fun is d =>
      Lays source tokens c d (is.map Item.outline) := by
  induction fuel generalizing c known with
  | zero => exact .unfinished hc
  | succ fuel ih =>
    unfold items
    refine .kind (.ite (fun _ => .pure (.refl hc)) fun _ => ?_)
    refine .bind (.accept _ hc) fun semi d hsemi => .ite (fun _ => ?_) fun _ => ?_
    · exact (ih known hsemi.tidy).imp fun is e his => hsemi.toLays.trans his
    · have hmoves : Moves 0 fuel 1 d _ _ := moves_item known (Nat.le_refl fuel)
      refine .bind (.recovering hsemi.tidy hmoves (item_lays known fuel hsemi.tidy)) ?_
      intro group e hgroup
      have hread := hsemi.toLays.trans hgroup
      cases group with
      | none => exact (ih known hread.tidy).imp fun is e' his => hread.trans his
      | some group =>
        refine .bind (ih _ hread.tidy) fun is e' his => .pure ?_
        rw [List.map_append]
        exact hread.trans his

end Parser

/-! ### Sources -/

/-- The tokens of a source are arranged. -/
theorem arranged_of_scan (h : scan source = .ok tokens) : Arranged source tokens := by
  have htiles := scan_eq_ok_iff.mp h
  have hplaced := htiles.laid.1.placed
  have hordered := List.pairwise_map.mp htiles.laid.1.ordered
  refine ⟨fun t ht => ?_, fun t ht hk => ?_, hordered.imp fun h => h.2⟩
  · obtain ⟨before, text, after, hsource, hspan⟩ := hplaced t.span (List.mem_map_of_mem ht)
    have hsize : byteLength source.toList = source.utf8ByteSize := by
      rw [byteLength_eq, String.ofList_toList]
    rw [hspan, ← hsize, hsource, byteLength_append, byteLength_append, byteLength_append]
    dsimp only
    omega
  · -- the end of file comes last, so another token has one behind it
    have hlast := List.getLast?_eq_some_iff.mp htiles.getLast?_eq
    obtain ⟨init, rfl⟩ := hlast
    rcases List.mem_append.mp ht with ht | ht
    · exact ((List.pairwise_append.mp hordered).2.2 t ht _ List.mem_cons_self).1
    · rw [List.mem_singleton.mp ht] at hk
      exact absurd rfl hk

/-- Before the first token nothing has been read and no error has been met. -/
theorem Cursor.tidy_start (h : scan source = .ok tokens) :
    (Cursor.start tokens).Tidy source tokens := by
  have hinside := (scan_eq_ok_iff.mp h).laid.1.inOrder.inside
  have horderly : (Cursor.start tokens).Orderly source tokens :=
    ⟨arranged_of_scan h, List.suffix_refl _, fun _ _ => Nat.zero_le _, .inl rfl⟩
  refine ⟨horderly, fun t ht => ?_, ⟨List.forall_mem_nil _, .nil⟩, List.forall_mem_nil _,
    fun _ => List.forall_mem_nil _⟩
  exact hinside t.span (List.mem_map_of_mem ht)

/-- The spans of a program that was read are nested and ordered: each goes from the start of a token
to the end of one inside the source, holds the spans below it, and siblings do not overlap. -/
theorem Program.spans_nested (source : String) (p : Program) (h : parse source = .ok p) :
    ∃ tokens, scan source = .ok tokens ∧ (∀ o ∈ p.outlines, o.Nested source tokens) ∧
      p.outlines.Pairwise Outline.Before := by
  rw [parse] at h
  cases hscan : scan source with
  | error errors =>
    rw [hscan] at h
    cases h
  | ok tokens =>
    rw [hscan] at h
    have hlays := Parser.items_lays [] (stepBound tokens) (Cursor.tidy_start hscan)
    unfold Parser.Reports at hlays
    dsimp only at h
    rw [ofTokens] at h
    cases hitems : Parser.items [] (stepBound tokens) (.start tokens) with
    | error e d =>
      rw [hitems] at h
      cases h
    | ok is d =>
      rw [hitems] at h hlays
      have hrow := hlays.row
      dsimp only at h
      split_ifs at h
      cases h
      exact ⟨tokens, rfl, hrow.nested, hrow.ordered⟩

/-- A call of a name in parentheses, a step of a bounded element and two globals of one type. -/
def wrappedSource : String :=
  "int f(int a[2*(1)]) { ++a[0]; return -(f)((a)) + (a[1]++); } int x[] = {1, (2)}, y;"

/-- Parentheses lie between the spans, and the two globals are siblings. -/
theorem Program.spans_nested_wrappedSource : ∃ p, parse wrappedSource = .ok p ∧
    p.outlines.length = 3 ∧ ∃ tokens, scan wrappedSource = .ok tokens ∧
      (∀ o ∈ p.outlines, o.Nested wrappedSource tokens) ∧ p.outlines.Pairwise Outline.Before := by
  obtain ⟨p, hp⟩ := Except.exists_of_isOk (r := parse wrappedSource) (by decide +kernel)
  have hlength : (parse wrappedSource).toOption.map (·.outlines.length) = some 3 := by
    decide +kernel
  rw [hp] at hlength
  exact ⟨p, hp, Option.some.inj hlength, Program.spans_nested wrappedSource p hp⟩

end SmallCpp
