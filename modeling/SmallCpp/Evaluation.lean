import SmallCpp.Machine

/-!
# Evaluation

The meaning of expressions, initializers, statements and calls. Operands are evaluated left to
right; the right side of an assignment comes before its target; arguments are evaluated in the
caller's frame before the callee's is made. Every function takes a bound on the nesting of the
steps it may make, which goes down by one at each step.
-/

namespace SmallCpp

/-- The value of a literal. -/
def Literal.toValue : Literal → Value
  | int n => .int n
  | bool b => .bool b
  | char c => .char c

/-- What an expression yields that names no storage. -/
def Expr.temporary : Expr → Temporary
  | literal .. => .literal
  | call .. => .callResult
  | binary .. | unary .. => .operatorResult
  | assign .. | step .. => .assignmentResult
  | _ => .other

/-- The number of initializers of a list. -/
def Initializer.count? : Initializer → Option Nat
  | list items _ => some items.length
  | expr _ => none

/-- Calls may be nested to this depth before they go on on a stack of their own. -/
def callsPerStack : Nat :=
  128

namespace Exec

variable {σ : Type} (ctx : Context σ)

mutual

/-- The value of an expression. -/
def eval : Nat → Expr → Exec σ Value
  | 0, _ => throw .outOfFuel
  | fuel + 1, e => do
    match e with
    | .literal lit _ => return lit.toValue
    | .name id _ => ask (·.get id)
    | .binary (.logic .and) left right _ =>
      let l ← eval fuel left
      if ← lift l.asBool then
        let r ← eval fuel right
        return .bool (← lift r.asBool)
      else
        return .bool false
    | .binary (.logic .or) left right _ =>
      let l ← eval fuel left
      if ← lift l.asBool then
        return .bool true
      else
        let r ← eval fuel right
        return .bool (← lift r.asBool)
    | .binary (.arith op) left right _ =>
      let l ← eval fuel left
      let r ← eval fuel right
      lift (op.apply l r)
    | .binary (.compare op) left right _ =>
      let l ← eval fuel left
      let r ← eval fuel right
      lift (op.apply l r)
    | .unary op operand _ =>
      let v ← eval fuel operand
      lift (op.apply v)
    | .assign op target value _ =>
      let rhs ← eval fuel value
      let p ← place fuel target
      let new ← combined op p rhs
      write p new
      ask (·.store.read p)
    | .step op fixity target _ =>
      let p ← place fuel target
      let old ← ask (·.store.read p)
      let new ← lift (op.arith.apply old (.int 1))
      write p new
      match fixity with
      | .before => ask (·.store.read p)
      | .after => return old
    | .call callee _ args _ => call fuel callee args
    | .index base subscript _ =>
      if base.isPlace then
        let p ← place fuel e
        ask (·.store.read p)
      else
        let v ← eval fuel base
        let i ← eval fuel subscript
        lift (v.element (← lift i.asInt))
    | .field base id _ =>
      if base.isPlace then
        let p ← place fuel e
        ask (·.store.read p)
      else
        let v ← eval fuel base
        lift (v.member id)

/-- The storage that an expression names. -/
def place : Nat → Expr → Exec σ Place
  | 0, _ => throw .outOfFuel
  | fuel + 1, e => do
    match e with
    | .name id _ => ask (·.lookup id)
    | .index base subscript _ =>
      let p ← place fuel base
      let i ← eval fuel subscript
      let n ← lift i.asInt
      ask (·.store.element p n)
    | .field base id _ =>
      let p ← place fuel base
      ask (·.store.member p id)
    | other => clash (.notStorage other.temporary)

/-- A call by name: of a primitive, or of a function of the program. -/
def call : Nat → String → List Expr → Exec σ Value
  | 0, _, _ => throw .outOfFuel
  | fuel + 1, callee, args => do
    match Primitive.ofName? callee with
    | some p =>
      match args with
      | [arg] =>
        let v ← eval fuel arg
        primitive p ctx.sink v
      | _ => fail (.arityMismatch p.name 1 args.length)
    | none =>
      let entry ← lift (ctx.functions.get callee)
      let params := entry.signature.params
      if params.length = args.length then
        let bound ← arguments fuel entry.signature.name params args
        invoke fuel entry bound
      else
        fail (.arityMismatch entry.signature.name params.length args.length)

/-- The arguments of a call of `function`, evaluated in order. -/
def arguments : Nat → String → List ParamSignature → List Expr → Exec σ (List Argument)
  | 0, _, _, _ => throw .outOfFuel
  | fuel + 1, function, params, args => do
    match params, args with
    | p :: ps, arg :: rest =>
      let first ← argument fuel function p arg
      return first :: (← arguments fuel function ps rest)
    | _, _ => return []

/-- One argument: a converted value, or for a reference the place, whose type has to be the
parameter's own. -/
def argument : Nat → String → ParamSignature → Expr → Exec σ Argument
  | 0, _, _, _ => throw .outOfFuel
  | fuel + 1, function, p, arg => do
    if !p.byRef then
      let v ← eval fuel arg
      return .value (← lift (v.convert p.type))
    else if arg.isPlace then
      let target ← place fuel arg
      let actual ← ask (·.store.typeAt target)
      if actual = p.type then
        return .reference target
      else
        clash (.argumentType p.name function p.type actual)
    else
      clash (.temporaryArgument p.name function)

/-- Runs a function on arguments that are ready. -/
def invoke : Nat → FunctionEntry → List Argument → Exec σ Value
  | 0, _, _ => throw .outOfFuel
  | fuel + 1, entry, args => do
    let signature := entry.signature
    match entry.body with
    | none => fail (.undefinedFunction signature.name)
    | some body =>
      let depth := (← get).env.depth
      checkDepth ctx.options depth
      let flow ← inFrame signature.name do
        declareArguments signature.params args
        if (depth + 1) % callsPerStack = 0 then
          onFreshStack (execAll fuel body.statements)
        else
          execAll fuel body.statements
      lift (signature.finish ctx.options.entry flow)

/-- The value that an initializer gives to a place of the given type. The elements without an
initializer are zero, however many they are: as for `ValueType.zero`, no length is too large for
memory. -/
def build : Nat → Initializer → ValueType → Exec σ Value
  | 0, _, _ => throw .outOfFuel
  | fuel + 1, init, type => do
    match init with
    | .expr e =>
      let v ← eval fuel e
      lift (v.convert type)
    | .list items _ =>
      match type with
      | .array elem length =>
        if length < items.length then
          clash (.tooManyInitializers items.length type)
        else
          let values ← buildElems fuel items elem
          return .array (values ++ List.replicate (length - items.length) elem.zero)
      | .record name layout =>
        if layout.length < items.length then
          clash (.tooManyInitializers items.length type)
        else
          return .record name layout (← buildFields fuel items layout)
      | _ =>
        match items with
        | [] => return type.zero
        | [item] => build fuel item type
        | _ => clash (.tooManyInitializers items.length type)

/-- The values of initializers for places of one type. -/
def buildElems : Nat → List Initializer → ValueType → Exec σ (List Value)
  | 0, _, _ => throw .outOfFuel
  | fuel + 1, items, type => do
    match items with
    | [] => return []
    | item :: rest =>
      let v ← build fuel item type
      return v :: (← buildElems fuel rest type)

/-- The values of a record's fields; those without an initializer are zero. -/
def buildFields : Nat → List Initializer → Layout → Exec σ (List Value)
  | 0, _, _ => throw .outOfFuel
  | fuel + 1, items, layout => do
    match items, layout with
    | item :: rest, (_, type) :: fields =>
      let v ← build fuel item type
      return v :: (← buildFields fuel rest fields)
    | _, fields => return ValueType.zeros fields

/-- Declares a variable: a reference is bound to a place of its own type, any other variable gets
storage that holds its initial value. -/
def declareVar : Nat → VarDecl → Exec σ Unit
  | 0, _ => throw .outOfFuel
  | fuel + 1, decl => do
    let type ← lift (ctx.types.resolve (decl.init.bind Initializer.count?) decl.type)
    if decl.byRef then
      match decl.init with
      | some (.expr target) =>
        if target.isPlace then
          let p ← place fuel target
          let actual ← ask (·.store.typeAt p)
          if actual = type then
            declareAlias decl.name p
          else
            clash (.referenceType decl.name type actual)
        else
          clash (.referenceToTemporary decl.name)
      | _ => clash (.referenceUnbound decl.name)
    else
      match decl.init with
      | some init =>
        let v ← build fuel init type
        declare decl.name v
      | none => declare decl.name type.zero

/-- Declares variables in order, each at its own place in the source. -/
def declareVars : Nat → List VarDecl → Exec σ Unit
  | 0, _ => throw .outOfFuel
  | fuel + 1, decls => do
    match decls with
    | [] => return
    | decl :: rest =>
      locating decl.span (declareVar fuel decl)
      declareVars fuel rest

/-- Executes a statement. -/
def exec : Nat → Statement → Exec σ Flow
  | 0, _ => throw .outOfFuel
  | fuel + 1, s => locating s.span do
    match s with
    | .declare decls _ =>
      declareVars fuel decls
      return .normal
    | .expr e _ =>
      let _ ← eval fuel e
      return .normal
    | .ifThen cond thenBranch _ =>
      let c ← eval fuel cond
      if ← lift c.asBool then inScope (exec fuel thenBranch) else return .normal
    | .ifElse cond thenBranch elseBranch _ =>
      let c ← eval fuel cond
      if ← lift c.asBool then inScope (exec fuel thenBranch) else inScope (exec fuel elseBranch)
    | .loop cond body _ => repeatWhile fuel cond body
    | .ret (some e) _ => return .returned (← eval fuel e)
    | .ret none _ => return .returned .void
    | .block body _ => inScope (execAll fuel body)
    | .empty _ => return .normal

/-- Executes a loop body, each time in a scope of its own, as long as the condition holds. -/
def repeatWhile : Nat → Expr → Statement → Exec σ Flow
  | 0, _, _ => throw .outOfFuel
  | fuel + 1, cond, body => do
    let c ← eval fuel cond
    if ← lift c.asBool then
      match ← inScope (exec fuel body) with
      | .normal => repeatWhile fuel cond body
      | .returned v => return .returned v
    else
      return .normal

/-- Executes statements in order, up to one that returns. -/
def execAll : Nat → List Statement → Exec σ Flow
  | 0, _ => throw .outOfFuel
  | fuel + 1, ss => do
    match ss with
    | [] => return .normal
    | s :: rest =>
      match ← exec fuel s with
      | .normal => execAll fuel rest
      | .returned v => return .returned v

end

end Exec

end SmallCpp
