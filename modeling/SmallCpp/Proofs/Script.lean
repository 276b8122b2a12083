import SmallCpp.Run
import Mathlib.Tactic.Common

/-!
# The evaluator as scripts

`Exec.eval` and its companions are functions of the machine, which hides the order of what they do.
Here each of them is a `Task`, and what a task does before it hands a part of its work to another
task is a `Script`: a tree of questions to the environment, effects, subtasks and enclosed parts.
`Task.run_succ` says that one step of the evaluator is its script with every subtask run one step
less deep; `Program.execute_eq` says the same of a whole program. A property of all tasks is then
proved by one induction on scripts, and the states between two effects can be named.
-/

namespace SmallCpp

/-- A question that evaluation asks of the environment. -/
inductive Query : Type → Type
  | get (id : String) : Query Value
  | lookup (id : String) : Query Place
  | read (p : Place) : Query Value
  | typeAt (p : Place) : Query ValueType
  | element (p : Place) (index : Int64) : Query Place
  | member (p : Place) (id : String) : Query Place

/-- The environment's answer to a question. -/
def Query.answer {α : Type} : Query α → Environment → Except RuntimeError α
  | get id => (·.get id)
  | lookup id => (·.lookup id)
  | read p => (·.store.read p)
  | typeAt p => (·.store.typeAt p)
  | element p index => (·.store.element p index)
  | member p id => (·.store.member p id)

/-- What evaluation does to the machine in one go. A declaration carries the type that was resolved
for it, which the machine does not keep. -/
inductive Effect
  | write (p : Place) (v : Value)
  | declare (name : String) (type : ValueType) (v : Value)
  | declareAlias (name : String) (type : ValueType) (p : Place)
  | print (p : Primitive) (arg : Value)
  | checkDepth

/-- A part of a script runs in a scope, in a frame, or at a place in the source. -/
inductive Enclosure
  | scope
  | frame (function : String)
  | located (span : Span)

/-- A part of the evaluator's work. -/
inductive Task
  | eval (e : Expr)
  | place (e : Expr)
  | call (callee : String) (args : List Expr)
  | arguments (function : String) (params : List ParamSignature) (args : List Expr)
  | argument (function : String) (p : ParamSignature) (arg : Expr)
  | invoke (entry : FunctionEntry) (args : List Argument)
  | build (init : Initializer) (type : ValueType)
  | buildElems (items : List Initializer) (type : ValueType)
  | buildFields (items : List Initializer) (layout : Layout)
  | declareVar (decl : VarDecl)
  | declareVars (decls : List VarDecl)
  | exec (s : Statement)
  | repeatWhile (cond : Expr) (body : Statement)
  | execAll (ss : List Statement)

/-- What a task yields. -/
abbrev Task.Result : Task → Type
  | eval _ | call .. | invoke .. | build .. => Value
  | place _ => Place
  | arguments .. => List Argument
  | argument .. => Argument
  | buildElems .. | buildFields .. => List Value
  | declareVar _ | declareVars _ => Unit
  | exec _ | repeatWhile .. | execAll _ => Flow

/-- What a task does up to the tasks that it hands on, and what it does with their results. -/
inductive Script : Type → Type 1
  | done {α : Type} (a : α) : Script α
  | fail {α : Type} (e : RuntimeError) : Script α
  | ask {α β : Type} (q : Query β) (next : β → Script α) : Script α
  | act {α : Type} (f : Effect) (next : Script α) : Script α
  | perform {α : Type} (t : Task) (next : t.Result → Script α) : Script α
  | within {α β : Type} (w : Enclosure) (inner : Script β) (next : β → Script α) : Script α

namespace Script

variable {α β : Type}

/-- One script after another. -/
def bind : Script α → (α → Script β) → Script β
  | done a, f => f a
  | fail e, _ => fail e
  | ask q next, f => ask q fun b => (next b).bind f
  | act e next, f => act e (next.bind f)
  | perform t next, f => perform t fun r => (next r).bind f
  | within w inner next, f => within w inner fun b => (next b).bind f

instance : Monad Script where
  pure := done
  bind := bind

/-- Asks a question. -/
def query (q : Query β) : Script β :=
  ask q done

/-- Has an effect. -/
def effect (f : Effect) : Script Unit :=
  act f (done ())

/-- Hands on a task. -/
def task (t : Task) : Script t.Result :=
  perform t done

/-- Runs a script inside an enclosure. -/
def enclosed (w : Enclosure) (inner : Script β) : Script β :=
  within w inner done

/-- Goes on with a result, or fails with its error. -/
def lift : Except RuntimeError α → Script α
  | .ok a => done a
  | .error e => fail e

/-! ## What each task does -/

section

variable {σ : Type} (ctx : Context σ)

/-- The script of an expression. -/
def eval (e : Expr) : Script Value := do
  match e with
  | .literal lit _ => return lit.toValue
  | .name id _ => query (.get id)
  | .binary (.logic .and) left right _ =>
    let l ← task (.eval left)
    if ← lift l.asBool then
      let r ← task (.eval right)
      return .bool (← lift r.asBool)
    else
      return .bool false
  | .binary (.logic .or) left right _ =>
    let l ← task (.eval left)
    if ← lift l.asBool then
      return .bool true
    else
      let r ← task (.eval right)
      return .bool (← lift r.asBool)
  | .binary (.arith op) left right _ =>
    let l ← task (.eval left)
    let r ← task (.eval right)
    lift (op.apply l r)
  | .binary (.compare op) left right _ =>
    let l ← task (.eval left)
    let r ← task (.eval right)
    lift (op.apply l r)
  | .unary op operand _ =>
    let v ← task (.eval operand)
    lift (op.apply v)
  | .assign op target value _ =>
    let rhs ← task (.eval value)
    let p ← task (.place target)
    let new ← combined op p rhs
    effect (.write p new)
    query (.read p)
  | .step op fixity target _ =>
    let p ← task (.place target)
    let old ← query (.read p)
    let new ← lift (op.arith.apply old (.int 1))
    effect (.write p new)
    match fixity with
    | .before => query (.read p)
    | .after => return old
  | .call callee _ args _ => task (.call callee args)
  | .index base subscript _ =>
    if base.isPlace then
      let p ← task (.place e)
      query (.read p)
    else
      let v ← task (.eval base)
      let i ← task (.eval subscript)
      lift (v.element (← lift i.asInt))
  | .field base id _ =>
    if base.isPlace then
      let p ← task (.place e)
      query (.read p)
    else
      let v ← task (.eval base)
      lift (v.member id)
where
  /-- The value that an assignment stores, given the value of its right side. -/
  combined (op : Option ArithOp) (p : Place) (rhs : Value) : Script Value :=
    match op with
    | none => return rhs
    | some arith => do
      let held ← query (.read p)
      lift (arith.apply held rhs)

/-- The script of an expression that names storage. -/
def place (e : Expr) : Script Place := do
  match e with
  | .name id _ => query (.lookup id)
  | .index base subscript _ =>
    let p ← task (.place base)
    let i ← task (.eval subscript)
    let n ← lift i.asInt
    query (.element p n)
  | .field base id _ =>
    let p ← task (.place base)
    query (.member p id)
  | other => fail (.typeMismatch (.notStorage other.temporary))

/-- The script of a call by name. -/
def call (callee : String) (args : List Expr) : Script Value := do
  match Primitive.ofName? callee with
  | some p =>
    match args with
    | [arg] =>
      let v ← task (.eval arg)
      effect (.print p v)
      return .void
    | _ => fail (.arityMismatch p.name 1 args.length)
  | none =>
    let entry ← lift (ctx.functions.get callee)
    let params := entry.signature.params
    if params.length = args.length then
      let bound ← task (.arguments entry.signature.name params args)
      task (.invoke entry bound)
    else
      fail (.arityMismatch entry.signature.name params.length args.length)

/-- The script of the arguments of a call. -/
def arguments (function : String) (params : List ParamSignature) (args : List Expr) :
    Script (List Argument) := do
  match params, args with
  | p :: ps, arg :: rest =>
    let first ← task (.argument function p arg)
    return first :: (← task (.arguments function ps rest))
  | _, _ => return []

/-- The script of one argument. -/
def argument (function : String) (p : ParamSignature) (arg : Expr) : Script Argument := do
  if !p.byRef then
    let v ← task (.eval arg)
    return .value (← lift (v.convert p.type))
  else if arg.isPlace then
    let target ← task (.place arg)
    let actual ← query (.typeAt target)
    if actual = p.type then
      return .reference target
    else
      fail (.typeMismatch (.argumentType p.name function p.type actual))
  else
    fail (.typeMismatch (.temporaryArgument p.name function))

/-- The script that declares a parameter. -/
def declareArgument (p : ParamSignature) : Argument → Script Unit
  | .value v => effect (.declare p.name p.type v)
  | .reference place => effect (.declareAlias p.name p.type place)

/-- The script that declares the parameters of a call. -/
def declareArguments : List ParamSignature → List Argument → Script Unit
  | p :: ps, arg :: args => do
    declareArgument p arg
    declareArguments ps args
  | _, _ => return

/-- The script of a function on arguments that are ready. -/
def invoke (entry : FunctionEntry) (args : List Argument) : Script Value := do
  match entry.body with
  | none => fail (.undefinedFunction entry.signature.name)
  | some body =>
    effect .checkDepth
    let flow ← enclosed (.frame entry.signature.name) do
      declareArguments entry.signature.params args
      task (.execAll body.statements)
    lift (entry.signature.finish ctx.options.entry flow)

/-- The script of an initializer for a place of the given type. -/
def build (init : Initializer) (type : ValueType) : Script Value := do
  match init with
  | .expr e =>
    let v ← task (.eval e)
    lift (v.convert type)
  | .list items _ =>
    match type with
    | .array elem length =>
      if length < items.length then
        fail (.typeMismatch (.tooManyInitializers items.length type))
      else
        let values ← task (.buildElems items elem)
        return .array (values ++ List.replicate (length - items.length) elem.zero)
    | .record name layout =>
      if layout.length < items.length then
        fail (.typeMismatch (.tooManyInitializers items.length type))
      else
        return .record name layout (← task (.buildFields items layout))
    | _ =>
      match items with
      | [] => return type.zero
      | [item] => task (.build item type)
      | _ => fail (.typeMismatch (.tooManyInitializers items.length type))

/-- The script of initializers for places of one type. -/
def buildElems (items : List Initializer) (type : ValueType) : Script (List Value) := do
  match items with
  | [] => return []
  | item :: rest =>
    let v ← task (.build item type)
    return v :: (← task (.buildElems rest type))

/-- The script of a record's fields. -/
def buildFields (items : List Initializer) (layout : Layout) : Script (List Value) := do
  match items, layout with
  | item :: rest, (_, type) :: fields =>
    let v ← task (.build item type)
    return v :: (← task (.buildFields rest fields))
  | _, fields => return ValueType.zeros fields

/-- The script of a variable's declaration. -/
def declareVar (decl : VarDecl) : Script Unit := do
  let type ← lift (ctx.types.resolve (decl.init.bind Initializer.count?) decl.type)
  if decl.byRef then
    match decl.init with
    | some (.expr target) =>
      if target.isPlace then
        let p ← task (.place target)
        let actual ← query (.typeAt p)
        if actual = type then
          effect (.declareAlias decl.name type p)
        else
          fail (.typeMismatch (.referenceType decl.name type actual))
      else
        fail (.typeMismatch (.referenceToTemporary decl.name))
    | _ => fail (.typeMismatch (.referenceUnbound decl.name))
  else
    match decl.init with
    | some init =>
      let v ← task (.build init type)
      effect (.declare decl.name type v)
    | none => effect (.declare decl.name type type.zero)

/-- The script of several declarations. -/
def declareVars (decls : List VarDecl) : Script Unit := do
  match decls with
  | [] => return
  | decl :: rest =>
    enclosed (.located decl.span) (task (.declareVar decl))
    task (.declareVars rest)

/-- The script of a statement. -/
def exec (s : Statement) : Script Flow := enclosed (.located s.span) do
  match s with
  | .declare decls _ =>
    task (.declareVars decls)
    return .normal
  | .expr e _ =>
    let _ ← task (.eval e)
    return .normal
  | .ifThen cond thenBranch _ =>
    let c ← task (.eval cond)
    if ← lift c.asBool then enclosed .scope (task (.exec thenBranch)) else return .normal
  | .ifElse cond thenBranch elseBranch _ =>
    let c ← task (.eval cond)
    if ← lift c.asBool then enclosed .scope (task (.exec thenBranch))
    else enclosed .scope (task (.exec elseBranch))
  | .loop cond body _ => task (.repeatWhile cond body)
  | .ret (some e) _ => return .returned (← task (.eval e))
  | .ret none _ => return .returned .void
  | .block body _ => enclosed .scope (task (.execAll body))
  | .empty _ => return .normal

/-- The script of one round of a loop. -/
def repeatWhile (cond : Expr) (body : Statement) : Script Flow := do
  let c ← task (.eval cond)
  if ← lift c.asBool then
    match ← enclosed .scope (task (.exec body)) with
    | .normal => task (.repeatWhile cond body)
    | .returned v => return .returned v
  else
    return .normal

/-- The script of statements in order. -/
def execAll (ss : List Statement) : Script Flow := do
  match ss with
  | [] => return .normal
  | s :: rest =>
    match ← task (.exec s) with
    | .normal => task (.execAll rest)
    | .returned v => return .returned v

end

end Script

/-- The script of a task. -/
def Task.script {σ : Type} (ctx : Context σ) : (t : Task) → Script t.Result
  | eval e => Script.eval e
  | place e => Script.place e
  | call callee args => Script.call ctx callee args
  | arguments function params args => Script.arguments function params args
  | argument function p arg => Script.argument function p arg
  | invoke entry args => Script.invoke ctx entry args
  | build init type => Script.build init type
  | buildElems items type => Script.buildElems items type
  | buildFields items layout => Script.buildFields items layout
  | declareVar decl => Script.declareVar ctx decl
  | declareVars decls => Script.declareVars decls
  | exec s => Script.exec s
  | repeatWhile cond body => Script.repeatWhile cond body
  | execAll ss => Script.execAll ss

/-- The script of a whole program: the globals, then the entry function. -/
def Program.script {σ : Type} (p : Program) (ctx : Context σ) : Script Int64 := do
  Script.task (.declareVars p.globals)
  let entry ← Script.lift (ctx.functions.get ctx.options.entry)
  let params := entry.signature.params
  if params.isEmpty then
    match ← Script.task (.invoke entry []) with
    | .void => return 0
    | v => Script.lift v.asInt
  else
    Script.fail (.arityMismatch entry.signature.name params.length 0)

end SmallCpp
