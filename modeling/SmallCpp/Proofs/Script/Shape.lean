import SmallCpp.Proofs.Script

/-!
# The shape of scripts

Which tasks a task may hand on, and which enclosures it may open, can be read off the syntax without
running anything. `Task.Hands` is the first, the call graph of the evaluator; `Task.Opens` is the
second. `Task.script_shaped` says that every script keeps to both. A property that depends only on
who hands on what to whom is then proved of `Task.Hands`, and not once more of all scripts.
-/

namespace SmallCpp

variable {α β : Type}

namespace Script

/-- Every enclosure that a script opens satisfies `K`, and every task that it hands on `T`. -/
def Shaped (K : Enclosure → Prop) (T : Task → Prop) : {α : Type} → Script α → Prop
  | _, .done _ => True
  | _, .fail _ => True
  | _, .ask _ next => ∀ b, (next b).Shaped K T
  | _, .act _ next => next.Shaped K T
  | _, .perform t next => T t ∧ ∀ r, (next r).Shaped K T
  | _, .within k inner next => K k ∧ inner.Shaped K T ∧ ∀ b, (next b).Shaped K T

namespace Shaped

variable {K : Enclosure → Prop} {T : Task → Prop}

/-- A result hands on nothing. -/
theorem pure {a : α} : (pure a : Script α).Shaped K T := trivial

/-- An error hands on nothing. -/
theorem fail {e : RuntimeError} : (fail e : Script α).Shaped K T := trivial

/-- One script after another has the shape if both have it. -/
theorem bind {s : Script α} {f : α → Script β} (hs : s.Shaped K T)
    (hf : ∀ a, (f a).Shaped K T) : (s >>= f).Shaped K T := by
  induction s with
  | done a => exact hf a
  | fail e => trivial
  | ask q next ih => exact fun b => ih b (hs b) hf
  | act g next ih => exact ih hs hf
  | perform t next ih => exact ⟨hs.1, fun r => ih r (hs.2 r) hf⟩
  | within k inner next _ ih => exact ⟨hs.1, hs.2.1, fun b => ih b (hs.2.2 b) hf⟩

/-- A question hands on nothing. -/
theorem query {q : Query α} : (query q).Shaped K T := fun _ => trivial

/-- An effect hands on nothing. -/
theorem effect {f : Effect} : (effect f).Shaped K T := trivial

/-- A task that may be handed on. -/
theorem task {t : Task} (h : T t) : Shaped K T (α := no_index t.Result) (task t) :=
  ⟨h, fun _ => trivial⟩

/-- An enclosure that may be entered, around a script of the shape. -/
theorem enclosed {k : Enclosure} {inner : Script α} (hk : K k) (h : inner.Shaped K T) :
    (enclosed k inner).Shaped K T :=
  ⟨hk, h, fun _ => trivial⟩

/-- A computation on values hands on nothing. -/
theorem lift {r : Except RuntimeError α} : (lift r).Shaped K T := by
  cases r <;> trivial

/-- Either branch may be taken. -/
theorem ite {c : Prop} [Decidable c] {s t : Script α} (hs : s.Shaped K T) (ht : t.Shaped K T) :
    (if c then s else t).Shaped K T := by
  split_ifs
  · exact hs
  · exact ht

/-- The shape may be weakened. -/
theorem imp {K' : Enclosure → Prop} {T' : Task → Prop} {s : Script α} (h : s.Shaped K T)
    (hK : ∀ k, K k → K' k) (hT : ∀ t, T t → T' t) : s.Shaped K' T' := by
  induction s with
  | done a => trivial
  | fail e => trivial
  | ask q next ih => exact fun b => ih b (h b)
  | act g next ih => exact ih h
  | perform t next ih => exact ⟨hT t h.1, fun r => ih r (h.2 r)⟩
  | within k inner next ihi ih => exact ⟨hK k h.1, ihi h.2.1, fun b => ih b (h.2.2 b)⟩

/-- A condition is evaluated before one of two scripts is chosen. -/
theorem condition {e : Expr} {s t : Script α} (he : T (.eval e)) (hs : s.Shaped K T)
    (ht : t.Shaped K T) :
    Shaped K T (do if ← Script.lift (← Script.task (.eval e)).asBool then s else t) :=
  .bind (.task he) fun _ => .bind .lift fun _ => .ite hs ht

/-- Two operands are evaluated before they are combined. -/
theorem operands {e e' : Expr} {f : Value → Value → Except RuntimeError α} (he : T (.eval e))
    (he' : T (.eval e')) :
    Shaped K T (do
      let l ← Script.task (.eval e)
      let r ← Script.task (.eval e')
      Script.lift (f l r)) :=
  .bind (.task he) fun _ => .bind (.task he') fun _ => .lift

end Shaped

end Script

/-! ## Tasks -/

/-- The enclosures that a task may open. -/
inductive Task.Opens : Task → Enclosure → Prop
  | invoke {entry args} : Opens (.invoke entry args) (.frame entry.signature.name)
  | declareVars {decl rest} : Opens (.declareVars (decl :: rest)) (.located decl.span)
  | exec {s} : Opens (.exec s) (.located s.span)
  | branch {s} : Opens (.exec s) .scope
  | round {cond body} : Opens (.repeatWhile cond body) .scope

/-- The tasks that a task may hand on, given the functions of the program. -/
inductive Task.Hands (functions : FunctionTable) : Task → Task → Prop
  -- Expressions: operands, targets, and the same expression as a place.
  | binaryLeft {op left right span} :
    Hands functions (.eval (.binary op left right span)) (.eval left)
  | binaryRight {op left right span} :
    Hands functions (.eval (.binary op left right span)) (.eval right)
  | unary {op operand span} : Hands functions (.eval (.unary op operand span)) (.eval operand)
  | assignValue {op target value span} :
    Hands functions (.eval (.assign op target value span)) (.eval value)
  | assignTarget {op target value span} :
    Hands functions (.eval (.assign op target value span)) (.place target)
  | stepTarget {op fixity target span} :
    Hands functions (.eval (.step op fixity target span)) (.place target)
  | evalCall {callee span args span'} :
    Hands functions (.eval (.call callee span args span')) (.call callee args)
  | evalPlace {e} : Hands functions (.eval e) (.place e)
  | indexBase {base subscript span} :
    Hands functions (.eval (.index base subscript span)) (.eval base)
  | indexSubscript {base subscript span} :
    Hands functions (.eval (.index base subscript span)) (.eval subscript)
  | fieldBase {base id span} : Hands functions (.eval (.field base id span)) (.eval base)
  | placeIndexBase {base subscript span} :
    Hands functions (.place (.index base subscript span)) (.place base)
  | placeIndexSubscript {base subscript span} :
    Hands functions (.place (.index base subscript span)) (.eval subscript)
  | placeFieldBase {base id span} : Hands functions (.place (.field base id span)) (.place base)
  -- Calls: the arguments one by one, then the function that the table has, then its body.
  | callPrimitive {callee arg} : Hands functions (.call callee [arg]) (.eval arg)
  | callArguments {callee name params args} :
    Hands functions (.call callee args) (.arguments name params args)
  | callInvoke {callee args entry bound} (h : functions.get callee = .ok entry) :
    Hands functions (.call callee args) (.invoke entry bound)
  | argumentsHead {name p ps arg rest} :
    Hands functions (.arguments name (p :: ps) (arg :: rest)) (.argument name p arg)
  | argumentsTail {name p ps arg rest} :
    Hands functions (.arguments name (p :: ps) (arg :: rest)) (.arguments name ps rest)
  | argumentValue {name p arg} : Hands functions (.argument name p arg) (.eval arg)
  | argumentPlace {name p arg} : Hands functions (.argument name p arg) (.place arg)
  | invokeBody {entry args body} (h : entry.body = some body) :
    Hands functions (.invoke entry args) (.execAll body.statements)
  -- Initializers, for elements and fields in order.
  | buildExpr {e type} : Hands functions (.build (.expr e) type) (.eval e)
  | buildElems {items span type elem} :
    Hands functions (.build (.list items span) type) (.buildElems items elem)
  | buildFields {items span type layout} :
    Hands functions (.build (.list items span) type) (.buildFields items layout)
  | buildSingle {item span type} :
    Hands functions (.build (.list [item] span) type) (.build item type)
  | elemsHead {item rest type} :
    Hands functions (.buildElems (item :: rest) type) (.build item type)
  | elemsTail {item rest type} :
    Hands functions (.buildElems (item :: rest) type) (.buildElems rest type)
  | fieldsHead {item rest type field} :
    Hands functions (.buildFields (item :: rest) (field :: type)) (.build item field.2)
  | fieldsTail {item rest type field} :
    Hands functions (.buildFields (item :: rest) (field :: type)) (.buildFields rest type)
  -- Declarations.
  | declarePlace {decl target} (h : decl.init = some (.expr target)) :
    Hands functions (.declareVar decl) (.place target)
  | declareInit {decl init type} (h : decl.init = some init) :
    Hands functions (.declareVar decl) (.build init type)
  | varsHead {decl rest} : Hands functions (.declareVars (decl :: rest)) (.declareVar decl)
  | varsTail {decl rest} : Hands functions (.declareVars (decl :: rest)) (.declareVars rest)
  -- Statements. A loop is the only task that hands on itself.
  | execDeclare {decls span} : Hands functions (.exec (.declare decls span)) (.declareVars decls)
  | execExpr {e span} : Hands functions (.exec (.expr e span)) (.eval e)
  | ifThenCond {cond body span} : Hands functions (.exec (.ifThen cond body span)) (.eval cond)
  | ifThenBody {cond body span} : Hands functions (.exec (.ifThen cond body span)) (.exec body)
  | ifElseCond {cond body body' span} :
    Hands functions (.exec (.ifElse cond body body' span)) (.eval cond)
  | ifElseThen {cond body body' span} :
    Hands functions (.exec (.ifElse cond body body' span)) (.exec body)
  | ifElseElse {cond body body' span} :
    Hands functions (.exec (.ifElse cond body body' span)) (.exec body')
  | execLoop {cond body span} :
    Hands functions (.exec (.loop cond body span)) (.repeatWhile cond body)
  | execRet {e span} : Hands functions (.exec (.ret (some e) span)) (.eval e)
  | execBlock {body span} : Hands functions (.exec (.block body span)) (.execAll body)
  | roundCond {cond body} : Hands functions (.repeatWhile cond body) (.eval cond)
  | roundBody {cond body} : Hands functions (.repeatWhile cond body) (.exec body)
  | roundNext {cond body} : Hands functions (.repeatWhile cond body) (.repeatWhile cond body)
  | allHead {s rest} : Hands functions (.execAll (s :: rest)) (.exec s)
  | allTail {s rest} : Hands functions (.execAll (s :: rest)) (.execAll rest)

namespace Script

variable {σ : Type} {K : Enclosure → Prop} {functions : FunctionTable}

/-- An expression hands on its operands. -/
theorem shaped_eval (e : Expr) : (eval e).Shaped K (Task.Hands functions (.eval e)) := by
  cases e with
  | literal lit span => exact .pure
  | name id span => exact .query
  | binary op left right span =>
    rcases op with op | op | ⟨⟨⟩⟩
    · exact .operands .binaryLeft .binaryRight
    · exact .operands .binaryLeft .binaryRight
    · exact .condition .binaryLeft (.bind (.task .binaryRight) fun _ => .bind .lift fun _ => .pure)
        .pure
    · exact .condition .binaryLeft .pure
        (.bind (.task .binaryRight) fun _ => .bind .lift fun _ => .pure)
  | unary op operand span => exact .bind (.task .unary) fun _ => .lift
  | assign op target value span =>
    refine .bind (.task .assignValue) fun rhs => .bind (.task .assignTarget) fun p => ?_
    refine .bind ?_ fun _ => .bind .effect fun _ => .query
    cases op with
    | none => exact .pure
    | some arith => exact .bind .query fun _ => .lift
  | step op fixity target span =>
    refine .bind (.task .stepTarget) fun p => .bind .query fun old => .bind .lift fun new => ?_
    refine .bind .effect fun _ => ?_
    cases fixity with
    | before => exact .query
    | after => exact .pure
  | call callee span args span' => exact .task .evalCall
  | index base subscript span =>
    refine .ite (.bind (.task .evalPlace) fun _ => .query) ?_
    refine .bind (.task .indexBase) fun v => .bind (.task .indexSubscript) fun i => ?_
    exact .bind .lift fun _ => .lift
  | field base id span =>
    exact .ite (.bind (.task .evalPlace) fun _ => .query) (.bind (.task .fieldBase) fun _ => .lift)

/-- An expression that names storage hands on its base, and its subscript. -/
theorem shaped_place (e : Expr) : (place e).Shaped K (Task.Hands functions (.place e)) := by
  cases e with
  | name id span => exact .query
  | index base subscript span =>
    refine .bind (.task .placeIndexBase) fun p => .bind (.task .placeIndexSubscript) fun i => ?_
    exact .bind .lift fun _ => .query
  | field base id span => exact .bind (.task .placeFieldBase) fun _ => .query
  | _ => exact .fail

/-- A call by name hands on its arguments, then the function that it has found. -/
theorem shaped_call (ctx : Context σ) (callee : String) (args : List Expr) :
    (call ctx callee args).Shaped K (Task.Hands ctx.functions (.call callee args)) := by
  rw [call]
  cases Primitive.ofName? callee with
  | some p =>
    rcases args with _ | ⟨arg, _ | ⟨_, _⟩⟩
    · exact .fail
    · exact .bind (.task .callPrimitive) fun _ => .bind .effect fun _ => .pure
    · exact .fail
  | none =>
    cases hget : ctx.functions.get callee with
    | error e => exact .fail
    | ok entry =>
      refine .ite (.bind (.task .callArguments) fun bound => ?_) .fail
      exact .task (.callInvoke hget)

/-- The arguments of a call are handed on one by one. -/
theorem shaped_arguments (function : String) (params : List ParamSignature) (args : List Expr) :
    (arguments function params args).Shaped K
      (Task.Hands functions (.arguments function params args)) := by
  rcases params with _ | ⟨p, ps⟩
  · exact .pure
  · rcases args with _ | ⟨arg, rest⟩
    · exact .pure
    · exact .bind (.task .argumentsHead) fun _ => .bind (.task .argumentsTail) fun _ => .pure

/-- An argument is handed on as an expression, or as one that names storage. -/
theorem shaped_argument (function : String) (p : ParamSignature) (arg : Expr) :
    (argument function p arg).Shaped K (Task.Hands functions (.argument function p arg)) := by
  refine .ite (.bind (.task .argumentValue) fun _ => .bind .lift fun _ => .pure) (.ite ?_ .fail)
  exact .bind (.task .argumentPlace) fun _ => .bind .query fun _ => .ite .pure .fail

/-- Declaring parameters hands on nothing. -/
theorem shaped_declareArguments {T : Task → Prop} (params : List ParamSignature)
    (args : List Argument) : (declareArguments params args).Shaped K T := by
  induction params generalizing args with
  | nil => exact .pure
  | cons p ps ih =>
    rcases args with _ | ⟨arg, rest⟩
    · exact .pure
    · refine .bind ?_ fun _ => ih rest
      cases arg <;> exact .effect

/-- A function hands on its body, inside a frame. -/
theorem shaped_invoke (ctx : Context σ) (entry : FunctionEntry) (args : List Argument)
    (hK : K (.frame entry.signature.name)) :
    (invoke ctx entry args).Shaped K (Task.Hands functions (.invoke entry args)) := by
  rw [invoke]
  cases hbody : entry.body with
  | none => exact .fail
  | some body =>
    refine .bind .effect fun _ => .bind (.enclosed hK ?_) fun _ => .lift
    exact .bind (shaped_declareArguments _ _) fun _ => .task (.invokeBody hbody)

/-- An initializer hands on its expression, or the items of its list. -/
theorem shaped_build (init : Initializer) (type : ValueType) :
    (build init type).Shaped K (Task.Hands functions (.build init type)) := by
  cases init with
  | expr e => exact .bind (.task .buildExpr) fun _ => .lift
  | list items span =>
    cases type with
    | array elem length => exact .ite .fail (.bind (.task .buildElems) fun _ => .pure)
    | record name layout => exact .ite .fail (.bind (.task .buildFields) fun _ => .pure)
    | _ =>
      rcases items with _ | ⟨item, _ | ⟨_, _⟩⟩
      · exact .pure
      · exact .task .buildSingle
      · exact .fail

/-- The elements of an array are handed on one by one. -/
theorem shaped_buildElems (items : List Initializer) (type : ValueType) :
    (buildElems items type).Shaped K (Task.Hands functions (.buildElems items type)) := by
  cases items with
  | nil => exact .pure
  | cons item rest =>
    exact .bind (.task .elemsHead) fun _ => .bind (.task .elemsTail) fun _ => .pure

/-- The fields of a record are handed on one by one. -/
theorem shaped_buildFields (items : List Initializer) (layout : Layout) :
    (buildFields items layout).Shaped K (Task.Hands functions (.buildFields items layout)) := by
  rcases items with _ | ⟨item, rest⟩
  · exact .pure
  · rcases layout with _ | ⟨field, fields⟩
    · exact .pure
    · exact .bind (.task .fieldsHead) fun _ => .bind (.task .fieldsTail) fun _ => .pure

/-- A variable hands on its initializer. -/
theorem shaped_declareVar (ctx : Context σ) (decl : VarDecl) :
    (declareVar ctx decl).Shaped K (Task.Hands functions (.declareVar decl)) := by
  refine .bind .lift fun type => .ite ?_ ?_
  · rcases hinit : decl.init with _ | ⟨target | _⟩
    · exact .fail
    · refine .ite (.bind (.task (.declarePlace hinit)) fun p => ?_) .fail
      exact .bind .query fun _ => .ite .effect .fail
    · exact .fail
  · cases hinit : decl.init with
    | none => exact .effect
    | some init => exact .bind (.task (.declareInit hinit)) fun _ => .effect

/-- Variables are handed on one by one, each at its place in the source. -/
theorem shaped_declareVars (decls : List VarDecl)
    (hK : ∀ decl rest, decls = decl :: rest → K (.located decl.span)) :
    (declareVars decls).Shaped K (Task.Hands functions (.declareVars decls)) := by
  cases decls with
  | nil => exact .pure
  | cons decl rest =>
    exact .bind (.enclosed (hK decl rest rfl) (.task .varsHead)) fun _ => .task .varsTail

/-- A statement is located as a whole; inside it opens nothing but scopes. -/
theorem exec_eq_located (functions : FunctionTable) (s : Statement) :
    ∃ inner, exec s = enclosed (.located s.span) inner ∧
      inner.Shaped (· = .scope) (Task.Hands functions (.exec s)) := by
  refine ⟨_, rfl, ?_⟩
  cases s with
  | declare decls span => exact .bind (.task .execDeclare) fun _ => .pure
  | expr e span => exact .bind (.task .execExpr) fun _ => .pure
  | ifThen cond body span => exact .condition .ifThenCond (.enclosed rfl (.task .ifThenBody)) .pure
  | ifElse cond body body' span =>
    exact .condition .ifElseCond (.enclosed rfl (.task .ifElseThen))
      (.enclosed rfl (.task .ifElseElse))
  | loop cond body span => exact .task .execLoop
  | ret value span =>
    cases value with
    | none => exact .pure
    | some e => exact .bind (.task .execRet) fun _ => .pure
  | block body span => exact .enclosed rfl (.task .execBlock)
  | empty span => exact .pure

/-- One round of a loop hands on its condition, its body in a scope, and the rounds that follow. -/
theorem shaped_repeatWhile (cond : Expr) (body : Statement) (hK : K .scope) :
    (repeatWhile cond body).Shaped K (Task.Hands functions (.repeatWhile cond body)) := by
  refine .condition .roundCond (.bind (.enclosed hK (.task .roundBody)) fun flow => ?_) .pure
  cases flow with
  | normal => exact .task .roundNext
  | returned v => exact .pure

/-- Statements are handed on one by one. -/
theorem shaped_execAll (ss : List Statement) :
    (execAll ss).Shaped K (Task.Hands functions (.execAll ss)) := by
  cases ss with
  | nil => exact .pure
  | cons s rest =>
    refine .bind (.task .allHead) fun flow => ?_
    cases flow with
    | normal => exact .task .allTail
    | returned v => exact .pure

end Script

/-- A task opens only the enclosures and hands on only the tasks that it may. -/
theorem Task.script_shaped {σ : Type} (ctx : Context σ) (t : Task) :
    (t.script ctx).Shaped t.Opens (t.Hands ctx.functions) := by
  cases t with
  | eval e => exact Script.shaped_eval e
  | place e => exact Script.shaped_place e
  | call callee args => exact Script.shaped_call ctx callee args
  | arguments function params args => exact Script.shaped_arguments function params args
  | argument function p arg => exact Script.shaped_argument function p arg
  | invoke entry args => exact Script.shaped_invoke ctx entry args .invoke
  | build init type => exact Script.shaped_build init type
  | buildElems items type => exact Script.shaped_buildElems items type
  | buildFields items layout => exact Script.shaped_buildFields items layout
  | declareVar decl => exact Script.shaped_declareVar ctx decl
  | declareVars decls =>
    refine Script.shaped_declareVars decls fun decl rest h => ?_
    rw [h]
    exact .declareVars
  | exec s =>
    obtain ⟨inner, heq, hinner⟩ := Script.exec_eq_located ctx.functions s
    change (Script.exec s).Shaped _ _
    rw [heq]
    exact .enclosed .exec (hinner.imp (fun k hk => hk ▸ .branch) fun _ => id)
  | repeatWhile cond body => exact Script.shaped_repeatWhile cond body .round
  | execAll ss => exact Script.shaped_execAll ss

/-- A program hands on its globals and a call of its entry function, and opens nothing itself. -/
theorem Program.script_shaped {σ : Type} (p : Program) (ctx : Context σ) {K : Enclosure → Prop}
    {T : Task → Prop} (hglobals : T (.declareVars p.globals))
    (hentry : ∀ entry, ctx.functions.get ctx.options.entry = .ok entry → T (.invoke entry [])) :
    (p.script ctx).Shaped K T := by
  refine .bind (.task hglobals) fun _ => ?_
  cases hget : ctx.functions.get ctx.options.entry with
  | error e => exact .fail
  | ok entry =>
    refine .ite (.bind (.task (hentry entry hget)) fun v => ?_) .fail
    cases v with
    | void => exact .pure
    | _ => exact .lift

end SmallCpp
