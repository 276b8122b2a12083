import Mathlib.Data.List.Forall2
import SmallCpp.Proofs.Parser.Agrees
import SmallCpp.Proofs.Printer.Items

/-!
# Layout does not matter to the parser

One lemma for each function of the parser: two runs of it on tokens of the same kinds agree up to
spans. The rests of an operand are given operands that are equal up to spans, and the functions that
go on from a base type are given any two places where it starts.
-/

namespace SmallCpp

/-- Spans do not tell what names storage. -/
theorem Expr.isPlace_eq {e e' : Expr} (h : e.bare = e'.bare) : e.isPlace = e'.isPlace := by
  rw [← isPlace_bare e, h, isPlace_bare]

/-- Only a name is equal to a name up to spans. -/
theorem Expr.exists_name {id : String} {span : Span} {e : Expr} (h : (name id span).bare = e.bare) :
    ∃ span', e = name id span' := by
  cases e with
  | name id' span' =>
    cases h
    exact ⟨span', rfl⟩
  | _ => cases h

/-- Bounds are wrapped around a type whatever their spans. -/
theorem WrittenType.withBounds_bare (type : WrittenType) (dims : List (Option Expr)) :
    type.bare.withBounds (dims.map (Option.map Expr.bare)) = (type.withBounds dims).bare := by
  induction dims with
  | nil => rfl
  | cons bound dims ih => exact congrArg (array · (bound.map Expr.bare)) ih

/-- The text of a type leaves its bounds out. -/
theorem WrittenType.text_bare (type : WrittenType) : type.bare.text = type.text := by
  induction type with
  | array elem bound ih => exact congrArg (· ++ "[]") ih
  | _ => rfl

namespace Parser

variable {fuel : Nat}

/-! ### Expressions -/

/-- Tokens of one kind stand for the same expression up to spans. -/
theorem atom?_bare {t t' : Token} (h : t.kind = t'.kind) :
    (atom? t).map Expr.bare = (atom? t').map Expr.bare := by
  rcases t with ⟨kind, span⟩
  rcases t' with ⟨kind', span'⟩
  obtain rfl : kind = kind' := h
  cases kind with
  | keyword word => cases word <;> rfl
  | _ => rfl

/-- Whether a step may be applied depends on its operand, not on where it stands. -/
theorem agrees_stepOf (op : StepOp) (fixity : Fixity) {target target' : Expr}
    (h : target.bare = target'.bare) (start start' : Nat) :
    Agrees Expr.bare (stepOf op fixity target start) (stepOf op fixity target' start') := by
  unfold stepOf
  rw [Expr.isPlace_eq h]
  refine .ite (.bind .lastEnd fun _ _ _ => .pure ?_) (.fail _ _ _)
  rw [Expr.bare, Expr.bare, h]

/-- The parsers of expressions on the same kinds of tokens. -/
structure ExpressionsAgree (fuel : Nat) : Prop where
  expression : Agrees Expr.bare (expression fuel) (expression fuel)
  binary : ∀ level, Agrees Expr.bare (binary fuel level) (binary fuel level)
  binaryRest : ∀ level {left left'}, left.bare = left'.bare →
    Agrees Expr.bare (binaryRest fuel level left) (binaryRest fuel level left')
  unary : Agrees Expr.bare (unary fuel) (unary fuel)
  postfixRest : ∀ {base base'}, base.bare = base'.bare →
    Agrees Expr.bare (postfixRest fuel base) (postfixRest fuel base')
  argumentList : Agrees (List.map Expr.bare) (argumentList fuel) (argumentList fuel)
  arguments : Agrees (List.map Expr.bare) (arguments fuel) (arguments fuel)
  primary : Agrees Expr.bare (primary fuel) (primary fuel)

namespace ExpressionsAgree

/-- Both runs see the same assignment operator or none, and refuse the same targets. -/
theorem expression_succ (ih : ExpressionsAgree fuel) :
    Agrees Expr.bare (Parser.expression (fuel + 1)) (Parser.expression (fuel + 1)) := by
  unfold Parser.expression
  refine .bind (ih.binary 0) fun target target' htarget => .bind_same .kind fun k => ?_
  cases assignOp? k with
  | none => exact .pure htarget
  | some op =>
    refine .bind .advance fun _ _ _ => ?_
    rw [Expr.isPlace_eq htarget]
    refine .ite (.bind ih.expression fun value value' hvalue => .pure ?_) (.fail _ _ _)
    rw [Expr.bare, Expr.bare, htarget, hvalue]

/-- Both runs go on with the same operators, so their operands are joined in the same way. -/
theorem binaryRest_succ (ih : ExpressionsAgree fuel) (level : Nat) {left left' : Expr}
    (hleft : left.bare = left'.bare) :
    Agrees Expr.bare (Parser.binaryRest (fuel + 1) level left)
      (Parser.binaryRest (fuel + 1) level left') := by
  unfold Parser.binaryRest
  refine .bind_same .kind fun k => ?_
  cases binaryOp? k with
  | none => exact .pure hleft
  | some op =>
    refine .ite (.pure hleft) (.bind .advance fun _ _ _ => .bind (ih.binary _) ?_)
    intro right right' hright
    refine ih.binaryRest level ?_
    rw [Expr.bare, Expr.bare, hleft, hright]

/-- Both runs read the same prefix operators. -/
theorem unary_succ (ih : ExpressionsAgree fuel) :
    Agrees Expr.bare (Parser.unary (fuel + 1)) (Parser.unary (fuel + 1)) := by
  unfold Parser.unary
  refine .bind .peek fun first first' hfirst => ?_
  rw [hfirst]
  cases unaryOp? first'.kind with
  | some op =>
    refine .bind .advance fun _ _ _ => .bind ih.unary fun operand operand' hoperand => .pure ?_
    rw [Expr.bare, Expr.bare, hoperand]
  | none =>
    cases stepOp? first'.kind with
    | some op =>
      refine .bind .advance fun _ _ _ => .bind ih.unary fun target target' htarget => ?_
      exact agrees_stepOf op .before htarget _ _
    | none => exact .bind ih.primary fun base base' hbase => ih.postfixRest hbase

/-- Both runs read the same subscripts, members, arguments and steps after equal operands. -/
theorem postfixRest_succ (ih : ExpressionsAgree fuel) {base base' : Expr}
    (hbase : base.bare = base'.bare) :
    Agrees Expr.bare (Parser.postfixRest (fuel + 1) base)
      (Parser.postfixRest (fuel + 1) base') := by
  unfold Parser.postfixRest
  refine .bind_same .kind fun k => ?_
  split
  · -- a subscript
    refine .bind .advance fun _ _ _ => .bind ih.expression fun subscript subscript' hsubscript => ?_
    refine .bind (.expect _ _) fun _ _ _ => ih.postfixRest ?_
    rw [Expr.bare, Expr.bare, hbase, hsubscript]
  · -- a member
    refine .bind .advance fun _ _ _ => .bind_same (.expectName _) fun member => ?_
    refine .bind .lastEnd fun _ _ _ => ih.postfixRest ?_
    rw [Expr.bare, Expr.bare, hbase]
  · -- only a name can be called, and both operands are the same name or none of them is one
    by_cases hname : ∃ callee span, base = .name callee span
    · obtain ⟨callee, span, rfl⟩ := hname
      obtain ⟨span', rfl⟩ := Expr.exists_name hbase
      refine .bind .advance fun _ _ _ => .bind ih.argumentList fun args args' hargs => ?_
      refine .bind (.expect _ _) fun _ _ _ => ih.postfixRest ?_
      rw [Expr.bare, Expr.bare, Expr.bareAll_eq_map, Expr.bareAll_eq_map, hargs]
    · have hname' : ¬∃ callee span, base' = .name callee span := by
        rintro ⟨callee, span, rfl⟩
        obtain ⟨span', rfl⟩ := Expr.exists_name hbase.symm
        exact hname ⟨callee, span', rfl⟩
      split
      · exact absurd ⟨_, _, rfl⟩ hname
      · split
        · exact absurd ⟨_, _, rfl⟩ hname'
        · exact .bind .peek fun _ _ _ => .fail _ _ _
  · -- a step, or the end of the phrase
    cases stepOp? k with
    | some op =>
      refine .bind .advance fun _ _ _ => .bind (agrees_stepOf op .after hbase _ _) ?_
      exact fun stepped stepped' hstepped => ih.postfixRest hstepped
    | none => exact .pure hbase

/-- Both runs read the same token as an expression, or an expression in parentheses. -/
theorem primary_succ (ih : ExpressionsAgree fuel) :
    Agrees Expr.bare (Parser.primary (fuel + 1)) (Parser.primary (fuel + 1)) := by
  unfold Parser.primary
  refine .bind .peek fun t t' ht => ?_
  have hatom := atom?_bare ht
  cases he : atom? t with
  | some e =>
    rw [he] at hatom
    obtain ⟨e', he', hbare⟩ := Option.map_eq_some_iff.mp hatom.symm
    rw [he']
    exact .bind .advance fun _ _ _ => .pure hbare.symm
  | none =>
    rw [he] at hatom
    rw [Option.map_eq_none_iff.mp hatom.symm, ht]
    refine .ite (.bind .advance fun _ _ _ => .bind ih.expression fun e e' he => ?_) .noExpression
    exact .bind (.expect _ _) fun _ _ _ => .pure he

end ExpressionsAgree

/-- All parsers of expressions agree with themselves on tokens of the same kinds. -/
theorem expressionsAgree (fuel : Nat) : ExpressionsAgree fuel := by
  induction fuel with
  | zero =>
    constructor
    all_goals intros; exact .unfinished
  | succ fuel ih =>
    exact {
      expression := ih.expression_succ
      binary := fun level => .bind ih.unary fun _ _ hleft => ih.binaryRest level hleft
      binaryRest := ih.binaryRest_succ
      unary := ih.unary_succ
      postfixRest := ih.postfixRest_succ
      argumentList := .bind_same .kind fun _ => .ite (.pure rfl) ih.arguments
      arguments := .bind ih.expression fun _ _ harg => .commaRest harg ih.arguments
      primary := ih.primary_succ }

/-- An expression is read alike from tokens of the same kinds. -/
theorem agrees_expression (fuel : Nat) : Agrees Expr.bare (expression fuel) (expression fuel) :=
  (expressionsAgree fuel).expression

/-! ### Declarators and initializers -/

/-- The type that is read is the same; where it starts may differ. -/
theorem agrees_baseType (known : List String) :
    Agrees Prod.fst (baseType known) (baseType known) := by
  refine .bind .peek fun t t' ht => ?_
  rw [ht]
  split
  case h_6 => exact .fail _ _ _
  case h_5 => exact .ite (.bind .advance fun _ _ _ => .pure rfl) (.fail _ _ _)
  all_goals exact .bind .advance fun _ _ _ => .pure rfl

/-- The same bounds are read, and the same of them are left out. -/
theorem agrees_bounds (name : String) (bare : Bool) (fuel : Nat) :
    Agrees (List.map (Option.map Expr.bare)) (bounds name bare fuel) (bounds name bare fuel) := by
  induction fuel with
  | zero => exact .unfinished
  | succ fuel ih =>
    unfold bounds
    refine .bind .peek fun t t' ht => ?_
    rw [ht]
    refine .ite (.bind .advance fun _ _ _ => .ite (.fail _ _ _) ?_) (.pure rfl)
    refine .bind_same (.accept _) fun closed => .ite (.bind ih fun dims dims' hdims => .pure ?_) ?_
    · rw [List.map_cons, List.map_cons, hdims]
    · refine .bind (agrees_expression fuel) fun bound bound' hbound => ?_
      refine .bind (.expect _ _) fun _ _ _ => .bind ih fun dims dims' hdims => .pure ?_
      rw [List.map_cons, List.map_cons, hdims, Option.map_some, Option.map_some, hbound]

/-- A declared name has no span, so both runs read the same. -/
theorem agrees_declaredName : Agrees id declaredName declaredName := by
  refine .bind_same (.accept _) fun paren => .ite ?_ (.bind_same (.accept _) fun amp => .ite ?_ ?_)
  · refine .bind (.expect _ _) fun _ _ _ => .bind_same (.expectName _) fun name => ?_
    exact .bind (.expect _ _) fun _ _ _ => .pure rfl
  · exact .bind_same (.expectName _) fun name => .pure rfl
  · exact .bind_same (.expectName _) fun name => .pure rfl

/-- The declarator without spans. -/
def Declarator.bare (r : Declarator) : Declarator :=
  ⟨r.name, r.byRef, r.bounds.map (Option.map Expr.bare), .nowhere⟩

namespace Declarator

variable {r r' : Declarator}

/-- Declarators that are equal up to spans have the same name. -/
theorem name_eq (h : r.bare = r'.bare) : r.name = r'.name :=
  (Declarator.mk.inj h).1

/-- Declarators that are equal up to spans are both references or neither is. -/
theorem byRef_eq (h : r.bare = r'.bare) : r.byRef = r'.byRef :=
  (Declarator.mk.inj h).2.1

/-- Which bounds are written does not depend on spans. -/
theorem any_isNone_eq (h : r.bare = r'.bare) :
    r.bounds.any Option.isNone = r'.bounds.any Option.isNone := by
  have hbare : ∀ dims : List (Option Expr),
      (dims.map (Option.map Expr.bare)).any Option.isNone = dims.any Option.isNone := by
    intro dims
    rw [List.any_map]
    exact congrArg (List.any dims) (funext fun bound => Option.isNone_map)
  rw [← hbare, ← hbare r'.bounds]
  exact congrArg (·.bounds.any Option.isNone) h

/-- Declarators that are equal up to spans make equal types up to spans. -/
theorem withBounds_eq (h : r.bare = r'.bare) (type : WrittenType) :
    (type.withBounds r.bounds).bare = (type.withBounds r'.bounds).bare := by
  rw [← WrittenType.withBounds_bare, ← WrittenType.withBounds_bare]
  exact congrArg (type.bare.withBounds ·.bounds) h

end Declarator

/-- The same name and bounds are read. -/
theorem agrees_declarator (fuel : Nat) :
    Agrees Declarator.bare (declarator fuel) (declarator fuel) := by
  refine .bind .peek fun _ _ _ => .bind_same agrees_declaredName fun (name, byRef, bare) => ?_
  refine .bind (agrees_bounds name bare fuel) fun dims dims' hdims => ?_
  refine .bind .lastEnd fun _ _ _ => .pure ?_
  rw [Declarator.bare, Declarator.bare, hdims]

/-- The parsers of initializers on the same kinds of tokens. -/
structure InitializersAgree (fuel : Nat) : Prop where
  initializer : Agrees Initializer.bare (initializer fuel) (initializer fuel)
  initializers : Agrees (List.map Initializer.bare) (initializers fuel) (initializers fuel)

/-- Both parsers of initializers agree with themselves on tokens of the same kinds. -/
theorem initializersAgree (fuel : Nat) : InitializersAgree fuel := by
  induction fuel with
  | zero => exact ⟨.unfinished, .unfinished⟩
  | succ fuel ih =>
    constructor
    · unfold Parser.initializer
      refine .bind .peek fun t t' ht => ?_
      rw [ht]
      refine .ite (.bind .advance fun _ _ _ => ?_) ?_
      · refine .bind ih.initializers fun items items' hitems => ?_
        refine .bind (.expect _ _) fun _ _ _ => .pure ?_
        rw [Initializer.bare, Initializer.bare, Initializer.bareAll_eq_map,
          Initializer.bareAll_eq_map, hitems]
      · exact .bind (agrees_expression fuel) fun e e' he => .pure (congrArg Initializer.expr he)
    · unfold Parser.initializers
      refine .bind_same .kind fun k => .ite (.pure rfl) ?_
      exact .bind ih.initializer fun item item' hitem => .commaRest hitem ih.initializers

/-- An initializer is read in both runs or in neither. -/
theorem agrees_initializer? (fuel : Nat) :
    Agrees (Option.map Initializer.bare) (initializer? fuel) (initializer? fuel) := by
  refine .bind_same (.accept _) fun sign => .ite ?_ (.pure rfl)
  exact .bind (initializersAgree fuel).initializer fun init init' hinit =>
    .pure (congrArg some hinit)

/-- The same variable is declared. -/
theorem agrees_varDecl (type : WrittenType) (fuel : Nat) :
    Agrees VarDecl.bare (varDecl type fuel) (varDecl type fuel) := by
  refine .bind (agrees_declarator fuel) fun r r' hr => ?_
  refine .bind (agrees_initializer? fuel) fun init init' hinit => ?_
  refine .bind .lastEnd fun _ _ _ => .pure ?_
  rw [VarDecl.bare, VarDecl.bare, r.name_eq hr, r.byRef_eq hr, r.withBounds_eq hr, hinit]

/-- The same variables are declared. -/
theorem agrees_varDecls (type : WrittenType) (fuel : Nat) :
    Agrees (List.map VarDecl.bare) (varDecls type fuel) (varDecls type fuel) := by
  induction fuel with
  | zero => exact .unfinished
  | succ fuel ih =>
    unfold varDecls
    exact .bind (agrees_varDecl type fuel) fun decl decl' hdecl => .commaRest hdecl ih

/-- The same variables are declared, wherever their base type starts. -/
theorem agrees_declarations (type : WrittenType) (start start' fuel : Nat) :
    Agrees (List.map VarDecl.bare) (declarations type start fuel)
      (declarations type start' fuel) := by
  refine .ite (.bind .lastEnd fun _ _ _ => .fail _ _ _) ?_
  refine .bind (agrees_varDecls type fuel) fun decls decls' hdecls => ?_
  exact .bind (.expect _ _) fun _ _ _ => .pure hdecls

/-! ### Statements -/

/-- The same declaration is read as a statement. -/
theorem agrees_declareStatement (known : List String) (fuel : Nat) :
    Agrees Statement.bare (declareStatement known fuel) (declareStatement known fuel) := by
  refine .bind (agrees_baseType known) ?_
  rintro ⟨type, start⟩ ⟨_, start'⟩ rfl
  refine .bind (agrees_declarations type start start' fuel) fun decls decls' hdecls => ?_
  refine .bind .lastEnd fun _ _ _ => .pure ?_
  rw [Statement.bare, Statement.bare, hdecls]

/-- The same value is returned, or none in both runs. -/
theorem agrees_returnStatement (fuel : Nat) :
    Agrees Statement.bare (returnStatement fuel) (returnStatement fuel) := by
  have hvalue : Agrees (Option.map Expr.bare) (returnValue? fuel) (returnValue? fuel) := by
    refine .bind_same .kind fun k => .ite (.pure rfl) ?_
    exact .bind (agrees_expression fuel) fun e e' he => .pure (congrArg some he)
  refine .bind .advance fun _ _ _ => .bind hvalue fun value value' hvalue => ?_
  refine .bind (.expect _ _) fun _ _ _ => .pure ?_
  rw [Statement.bare, Statement.bare, hvalue]

/-- The same expression is read as a statement. -/
theorem agrees_expressionStatement (fuel : Nat) :
    Agrees Statement.bare (expressionStatement fuel) (expressionStatement fuel) := by
  refine .bind (agrees_expression fuel) fun e e' he => .bind (.expect _ _) fun _ _ _ => .pure ?_
  rw [Statement.bare, Statement.bare, he]

/-- The same condition is read. -/
theorem agrees_condition (opening : Expected) (fuel : Nat) :
    Agrees Expr.bare (condition opening fuel) (condition opening fuel) :=
  .bind (.expect _ _) fun _ _ _ => .bind (agrees_expression fuel) fun _ _ he =>
    .bind (.expect _ _) fun _ _ _ => .pure he

/-- The parsers of statements on the same kinds of tokens. -/
structure StatementsAgree (known : List String) (fuel : Nat) : Prop where
  statement : Agrees Statement.bare (statement known fuel) (statement known fuel)
  block : Agrees Block.bare (block known fuel) (block known fuel)
  statements : Agrees Statement.bareAll (statements known fuel) (statements known fuel)

namespace StatementsAgree

variable {known : List String}

/-- Both runs choose the kind of the statement by the same token. -/
theorem statement_succ (ih : StatementsAgree known fuel) :
    Agrees Statement.bare (Parser.statement known (fuel + 1))
      (Parser.statement known (fuel + 1)) := by
  unfold Parser.statement
  refine .bind_same .kind fun k => ?_
  split
  · -- a block
    refine .bind ih.block fun b b' hb => .pure ?_
    exact congrArg (Statement.block · .nowhere) (Block.mk.inj hb).1
  · -- a conditional, with or without its second branch
    refine .bind .advance fun _ _ _ => .bind (agrees_condition _ fuel) fun cond cond' hcond => ?_
    refine .bind ih.statement fun body body' hbody => .bind_same .kind fun k' => .ite ?_ ?_
    · refine .bind .advance fun _ _ _ => .bind ih.statement fun other other' hother => ?_
      refine .bind .lastEnd fun _ _ _ => .pure ?_
      rw [Statement.bare, Statement.bare, hcond, hbody, hother]
    · refine .bind .lastEnd fun _ _ _ => .pure ?_
      rw [Statement.bare, Statement.bare, hcond, hbody]
  · -- a loop
    refine .bind .advance fun _ _ _ => .bind (agrees_condition _ fuel) fun cond cond' hcond => ?_
    refine .bind ih.statement fun body body' hbody => .bind .lastEnd fun _ _ _ => .pure ?_
    rw [Statement.bare, Statement.bare, hcond, hbody]
  · exact agrees_returnStatement fuel
  · exact .bind .advance fun _ _ _ => .pure rfl
  · exact .ite (agrees_declareStatement known fuel) (agrees_expressionStatement fuel)

/-- A statement fails in both runs or in neither, and leaves nothing where it fails. -/
theorem statements_succ (ih : StatementsAgree known fuel) :
    Agrees Statement.bareAll (Parser.statements known (fuel + 1))
      (Parser.statements known (fuel + 1)) := by
  unfold Parser.statements
  refine .bind_same .kind fun k => .ite (.pure rfl) ?_
  refine .bind (.recovering ih.statement) fun s s' hs => ?_
  refine .bind ih.statements fun ss ss' hss => .pure ?_
  cases s with
  | none =>
    obtain rfl := Option.map_eq_none_iff.mp hs.symm
    exact hss
  | some s =>
    obtain ⟨s', rfl, hbare⟩ := Option.map_eq_some_iff.mp hs.symm
    exact congrArg₂ List.cons hbare.symm hss

end StatementsAgree

/-- All parsers of statements agree with themselves on tokens of the same kinds. -/
theorem statementsAgree (known : List String) (fuel : Nat) : StatementsAgree known fuel := by
  induction fuel with
  | zero => exact ⟨.unfinished, .unfinished, .unfinished⟩
  | succ fuel ih =>
    refine ⟨ih.statement_succ, ?_, ih.statements_succ⟩
    unfold Parser.block
    refine .bind (.expect _ _) fun _ _ _ => .bind ih.statements fun body body' hbody => ?_
    refine .bind (.expect _ _) fun _ _ _ => .pure ?_
    rw [Block.bare, Block.bare, hbody]

/-! ### Items -/

/-- The same parameter is read, or refused with the same message. -/
theorem agrees_param (known : List String) (fuel : Nat) :
    Agrees Param.bare (param known fuel) (param known fuel) := by
  refine .bind (agrees_baseType known) ?_
  rintro ⟨type, start⟩ ⟨_, start'⟩ rfl
  refine .ite (.bind .lastEnd fun _ _ _ => .fail _ _ _) ?_
  refine .bind (agrees_declarator fuel) fun r r' hr => ?_
  have htype := r.withBounds_eq hr type
  have hname := r.name_eq hr
  rw [r.any_isNone_eq hr]
  refine .ite ?_ (.pure ?_)
  · -- the message names the parameter and its type
    have htext : (type.withBounds r.bounds).text = (type.withBounds r'.bounds).text := by
      rw [← WrittenType.text_bare, htype, WrittenType.text_bare]
    have hmessage : (SyntaxCause.unboundedParameter r.name (type.withBounds r.bounds)).message =
        (SyntaxCause.unboundedParameter r'.name (type.withBounds r'.bounds)).message := by
      unfold SyntaxCause.message
      dsimp only
      rw [hname, htext]
    exact .fail_of hmessage rfl rfl _ _
  · rw [Param.bare, Param.bare, hname, htype, r.byRef_eq hr]

/-- The same parameters are read. -/
theorem agrees_params (known : List String) (fuel : Nat) :
    Agrees (List.map Param.bare) (params known fuel) (params known fuel) := by
  induction fuel with
  | zero => exact .unfinished
  | succ fuel ih =>
    unfold params
    exact .bind (agrees_param known fuel) fun p p' hp => .commaRest hp ih

/-- A lone `void` is skipped in both runs or in neither. -/
theorem agrees_paramList (known : List String) (fuel : Nat) :
    Agrees (List.map Param.bare) (paramList known fuel) (paramList known fuel) := by
  have hvoid : Agrees id skipLoneVoid skipLoneVoid := by
    refine .bind_same .kind fun k => .bind_same .secondKind fun k' => .ite ?_ (.pure rfl)
    exact .bind .advance fun _ _ _ => .pure rfl
  refine .bind_same hvoid fun _ => .bind_same .kind fun k => .ite (.pure rfl) ?_
  exact agrees_params known fuel

/-- The same function is read, wherever its result type starts. -/
theorem agrees_function (known : List String) (returns : WrittenType) (start start' fuel : Nat) :
    Agrees FunctionDecl.bare (function known returns start fuel)
      (function known returns start' fuel) := by
  refine .bind_same (.expectName _) fun name => .bind .advance fun _ _ _ => ?_
  refine .bind (agrees_paramList known fuel) fun ps ps' hps => ?_
  refine .bind (.expect _ _) fun _ _ _ => .bind_same .kind fun k => .ite ?_ ?_
  · refine .bind .advance fun _ _ _ => .pure ?_
    rw [FunctionDecl.bare, FunctionDecl.bare, hps]
  · refine .bind (statementsAgree known fuel).block fun body body' hbody => .pure ?_
    rw [FunctionDecl.bare, FunctionDecl.bare, hps, Option.map_some, Option.map_some, hbody]

/-- The same members are read, or refused for the same reason. -/
theorem agrees_members (type : WrittenType) (fuel : Nat) :
    Agrees (List.map FieldDecl.bare) (members type fuel) (members type fuel) := by
  induction fuel with
  | zero => exact .unfinished
  | succ fuel ih =>
    unfold members
    refine .bind (agrees_declarator fuel) fun r r' hr => ?_
    rw [r.byRef_eq hr]
    refine .ite (.fail _ _ _) (.bind .peek fun t t' ht => ?_)
    rw [ht]
    refine .ite (.fail _ _ _) (.commaRest ?_ ih)
    rw [FieldDecl.bare, FieldDecl.bare, r.name_eq hr, r.withBounds_eq hr]

/-- A function follows in both runs or in neither. -/
theorem agrees_nextIsFunction : Agrees id nextIsFunction nextIsFunction := by
  refine .bind_same .kind fun k => .bind_same .secondKind fun k' => ?_
  split <;> exact .pure rfl

/-- The same fields are read. -/
theorem agrees_fields (known : List String) (fuel : Nat) :
    Agrees (List.map FieldDecl.bare) (fields known fuel) (fields known fuel) := by
  induction fuel with
  | zero => exact .unfinished
  | succ fuel ih =>
    unfold fields
    refine .bind_same .kind fun k => .ite (.pure rfl) (.ite ?_ (.ite ?_ ?_))
    · exact .bind .advance fun _ _ _ => ih
    · exact .bind .advance fun _ _ _ => .bind (.expect _ _) fun _ _ _ => ih
    · refine .bind (agrees_baseType known) ?_
      rintro ⟨type, start⟩ ⟨_, start'⟩ rfl
      refine .bind_same agrees_nextIsFunction fun isFunction => ?_
      refine .ite (.bind .peek fun _ _ _ => .fail _ _ _) ?_
      refine .ite (.bind .peek fun _ _ _ => .fail _ _ _) ?_
      refine .bind (agrees_members type fuel) fun group group' hgroup => ?_
      refine .bind (.expect _ _) fun _ _ _ => .bind ih fun more more' hmore => .pure ?_
      rw [List.map_append, List.map_append, hgroup, hmore]

/-- The same record is read. -/
theorem agrees_record (known : List String) (fuel : Nat) :
    Agrees RecordDecl.bare (record known fuel) (record known fuel) := by
  refine .bind .advance fun _ _ _ => .bind_same (.expectName _) fun name => ?_
  refine .bind (.expect _ _) fun _ _ _ => .bind (agrees_fields known fuel) fun fs fs' hfs => ?_
  refine .bind (.expect _ _) fun _ _ _ => .bind (.expect _ _) fun _ _ _ => .pure ?_
  rw [RecordDecl.bare, RecordDecl.bare, hfs]

/-- Both runs read a record, a function or globals. -/
theorem agrees_item (known : List String) (fuel : Nat) :
    Agrees (List.map Item.bare) (item known fuel) (item known fuel) := by
  refine .bind_same .kind fun k => .ite ?_ ?_
  · refine .bind (agrees_record known fuel) fun r r' hr => .pure ?_
    exact congrArg (fun decl => [Item.record decl]) hr
  · refine .bind (agrees_baseType known) ?_
    rintro ⟨type, start⟩ ⟨_, start'⟩ rfl
    refine .bind_same agrees_nextIsFunction fun isFunction => .ite ?_ ?_
    · refine .bind (agrees_function known type start start' fuel) fun f f' hf => .pure ?_
      exact congrArg (fun decl => [Item.function decl]) hf
    · refine .bind (agrees_declarations type start start' fuel) fun decls decls' hdecls => .pure ?_
      have hglobal : ∀ ds : List VarDecl,
          (ds.map Item.global).map Item.bare = (ds.map VarDecl.bare).map Item.global := by
        intro ds
        rw [List.map_map, List.map_map]
        rfl
      rw [hglobal, hglobal, hdecls]

/-- The records that are known from then on are the same in both runs. -/
theorem agrees_items (known : List String) (fuel : Nat) :
    Agrees (List.map Item.bare) (items known fuel) (items known fuel) := by
  induction fuel generalizing known with
  | zero => exact .unfinished
  | succ fuel ih =>
    unfold items
    refine .bind_same .kind fun k => .ite (.pure rfl) ?_
    refine .bind_same (.accept _) fun semi => .ite (ih known) ?_
    refine .bind (.recovering (agrees_item known fuel)) fun group group' hgroup => ?_
    cases group with
    | none =>
      obtain rfl := Option.map_eq_none_iff.mp hgroup.symm
      exact ih known
    | some group =>
      obtain ⟨group', rfl, hbare⟩ := Option.map_eq_some_iff.mp hgroup.symm
      have hnames : definedNames group = definedNames group' := by
        rw [← definedNames_bare, ← hbare, definedNames_bare]
      dsimp only
      rw [hnames]
      refine .bind (ih _) fun is is' his => .pure ?_
      rw [List.map_append, List.map_append, hbare, his]

end Parser

/-! ### Sources -/

section Sources

variable {tokens tokens' : List Token}

/-- Tokens of the same kinds give programs that are equal up to spans, or errors that read the same.
-/
theorem Program.ofTokens_agree (h : tokens.map Token.kind = tokens'.map Token.kind) :
    (∃ p p', ofTokens tokens = .ok p ∧ ofTokens tokens' = .ok p' ∧ p.bare = p'.bare) ∨
      ∃ errors errors', ofTokens tokens = .error errors ∧ ofTokens tokens' = .error errors' ∧
        errors.map SyntaxError.bare = errors'.map SyntaxError.bare := by
  have hstart : (Cursor.start tokens).Alike (.start tokens') := ⟨h, rfl⟩
  have hbound : stepBound tokens = stepBound tokens' := by
    have hlength := congrArg List.length h
    rw [List.length_map, List.length_map] at hlength
    rw [stepBound, stepBound, hlength]
  have hsame := Parser.agrees_items [] (stepBound tokens') _ _ hstart
  rw [ofTokens, ofTokens, hbound]
  generalize Parser.items [] (stepBound tokens') (.start tokens) = r at hsame
  generalize Parser.items [] (stepBound tokens') (.start tokens') = r' at hsame
  cases hsame with
  | @ok is is' d d' his hd =>
    -- reading has recovered from something in both runs or in none
    have hempty : d.recovered.isEmpty = d'.recovered.isEmpty := by
      rw [← List.isEmpty_map, hd.errors_eq, List.isEmpty_map]
    dsimp only
    rw [hempty]
    split_ifs
    · exact .inl ⟨_, _, rfl, rfl, congrArg Program.mk his⟩
    · exact .inr ⟨_, _, rfl, rfl, hd.errors_eq⟩
  | @error e e' d d' he hd =>
    refine .inr ⟨_, _, rfl, rfl, ?_⟩
    rw [List.map_append, List.map_append, hd.errors_eq, List.map_singleton, List.map_singleton, he]

/-- Errors that are shown alike have the same message, label and help. -/
theorem SyntaxError.forall₂_of_bare {errors errors' : List SyntaxError}
    (h : errors.map bare = errors'.map bare) :
    List.Forall₂ (fun e e' => e.cause.message = e'.cause.message ∧
      e.cause.label = e'.cause.label ∧ e.cause.help = e'.cause.help) errors errors' := by
  have hbare : List.Forall₂ (fun e e' => bare e = bare e') errors errors' := by
    rw [← List.forall₂_map_right_iff, ← List.forall₂_map_left_iff, h]
    exact List.forall₂_refl _
  refine hbare.imp ?_
  intro e e' h
  exact ⟨congrArg Diagnostic.message h, congrArg Diagnostic.label h, congrArg Diagnostic.help h⟩

end Sources

/-- Two sources with the same kinds of tokens are programs that are equal up to spans, or both have
the same syntax errors up to their places. -/
theorem Program.parse_ignores_layout (source source' : String) (tokens tokens' : List Token)
    (hscan : scan source = .ok tokens) (hscan' : scan source' = .ok tokens')
    (hkinds : tokens.map Token.kind = tokens'.map Token.kind) :
    (∃ p p', parse source = .ok p ∧ parse source' = .ok p' ∧ p.bare = p'.bare) ∨
      ∃ errors errors', parse source = .error errors ∧ parse source' = .error errors' ∧
        List.Forall₂ (fun e e' => e.cause.message = e'.cause.message ∧
          e.cause.label = e'.cause.label ∧ e.cause.help = e'.cause.help) errors errors' := by
  rw [parse, parse, hscan, hscan']
  rcases ofTokens_agree hkinds with hprograms | ⟨errors, errors', h, h', herrors⟩
  · exact .inl hprograms
  · exact .inr ⟨errors, errors', h, h', SyntaxError.forall₂_of_bare herrors⟩

/-- A source without a blank that is not needed, with three syntax errors. -/
def crowded : String :=
  "int f(){1=x;y z;}int h(int a[]);"

/-- The same with blanks, comments and a line break. -/
def spread : String :=
  "int f() { 1 = x; y /**/ z; } // calls\nint h(int a[ ]);"

/-- Two sources with the same three errors, at different places. -/
theorem Program.parse_ignores_layout_crowded :
    ∃ tokens tokens', scan crowded = .ok tokens ∧ scan spread = .ok tokens' ∧
      tokens.map Token.kind = tokens'.map Token.kind ∧
      ∃ errors errors', parse crowded = .error errors ∧ parse spread = .error errors' ∧
        List.Forall₂ (fun e e' => e.cause.message = e'.cause.message ∧
          e.cause.label = e'.cause.label ∧ e.cause.help = e'.cause.help) errors errors' := by
  obtain ⟨tokens, hscan⟩ := Except.exists_of_isOk (r := scan crowded) (by decide +kernel)
  obtain ⟨tokens', hscan'⟩ := Except.exists_of_isOk (r := scan spread) (by decide +kernel)
  have hkinds : (scan crowded).toOption.map (List.map Token.kind) =
      (scan spread).toOption.map (List.map Token.kind) := by
    decide +kernel
  have hfaulty : (parse crowded).isOk = false := by decide +kernel
  rw [hscan, hscan'] at hkinds
  have hkinds : tokens.map Token.kind = tokens'.map Token.kind := Option.some.inj hkinds
  refine ⟨tokens, tokens', hscan, hscan', hkinds, ?_⟩
  rcases Program.parse_ignores_layout crowded spread tokens tokens' hscan hscan' hkinds with
    ⟨p, -, hp, -⟩ | herrors
  · rw [hp] at hfaulty
    cases hfaulty
  · exact herrors

end SmallCpp
