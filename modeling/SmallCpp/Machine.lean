import SmallCpp.Environment
import SmallCpp.FunctionTable
import SmallCpp.Output

/-!
# The machine

A run changes a `Machine`: its environment and the state of its sink. What stays fixed during a run
is its `Context`. A part of a program either yields a result or stops, and leaves a machine in both
cases. It stops with a fault, or because the bound on the steps it may make is used up; the two are
kept apart, so that a run that needs more steps is never taken for one that fails.
-/

namespace SmallCpp

/-- How a program is run. -/
structure RunOptions where
  /-- The function called once the globals are initialized. -/
  entry : String := "main"
  /-- How many calls may be running at once; without it, any number. -/
  maxCallDepth : Option Nat := none
deriving DecidableEq, Repr, Inhabited

/-- Why a part of a program yields no result. -/
inductive Stop
  /-- An error, with the innermost part of the source that was being executed. -/
  | fault (error : RuntimeError) (span : Option Span)
  /-- The bound on the steps is used up. -/
  | outOfFuel
deriving DecidableEq, Repr

/-- What stays fixed during a run. -/
structure Context (σ : Type) where
  /-- The records. -/
  types : TypeTable
  /-- The functions. -/
  functions : FunctionTable
  /-- How the program is run. -/
  options : RunOptions
  /-- Where output goes. -/
  sink : Sink σ

/-- What a run changes. -/
structure Machine (σ : Type) where
  /-- Storage and names. -/
  env : Environment
  /-- The state of the sink. -/
  sink : σ

/-- Executing a part of a program. -/
abbrev Exec (σ : Type) := EStateM Stop (Machine σ)

namespace Exec

variable {σ α : Type}

/-- Stops with an error. -/
@[inline] def fail (e : RuntimeError) : Exec σ α :=
  throw (.fault e none)

/-- Stops with a clash of types. -/
@[inline] def clash (c : Clash) : Exec σ α :=
  fail (.typeMismatch c)

/-- Goes on with a result, or stops with its error. -/
@[inline] def lift : Except RuntimeError α → Exec σ α
  | .ok a => pure a
  | .error e => fail e

/-- Asks the environment. -/
@[inline] def ask (f : Environment → Except RuntimeError α) : Exec σ α := fun m =>
  lift (f m.env) m

/-- Changes the environment. -/
@[inline] def change (f : Environment → Environment) : Exec σ Unit := fun ⟨env, s⟩ =>
  .ok () ⟨f env, s⟩

/-- Stores a value at a place. -/
def write (p : Place) (v : Value) : Exec σ Unit := do
  let held ← ask (·.store.updated p v)
  change (·.setCell p.cell held)

/-- Changes the environment by a declaration of the name, which the current scope must not have
yet. -/
@[inline] def declaring (name : String) (f : Environment → Environment) : Exec σ Unit := do
  if (← get).env.declares name then
    fail (.duplicateDeclaration name)
  else
    change f

/-- Declares a name with new storage that holds the value. -/
def declare (name : String) (v : Value) : Exec σ Unit :=
  declaring name (·.bindNew name v)

/-- Declares a name for storage that exists. -/
def declareAlias (name : String) (p : Place) : Exec σ Unit :=
  declaring name (·.bind name ⟨p, .alias⟩)

/-- Runs a part, and changes the environment after it, whether it yields a result or stops. -/
@[inline] def afterwards (after : Environment → Environment) (x : Exec σ α) : Exec σ α := fun m =>
  match x m with
  | .ok a ⟨env, s⟩ => .ok a ⟨after env, s⟩
  | .error stop ⟨env, s⟩ => .error stop ⟨after env, s⟩

/-- Runs a part in a scope of its own. -/
@[inline] def inScope (x : Exec σ α) : Exec σ α := fun ⟨env, s⟩ =>
  afterwards Environment.leave x ⟨env.enter, s⟩

/-- Runs a part in a frame of its own. -/
@[inline] def inFrame (function : String) (x : Exec σ α) : Exec σ α := fun ⟨env, s⟩ =>
  afterwards Environment.popFrame x ⟨env.pushFrame function, s⟩

/-- Runs a part that stands at `span`: a fault without a place gets this one. -/
@[inline] def locating (span : Span) (x : Exec σ α) : Exec σ α := fun m =>
  match x m with
  | .error (.fault e none) m' => .error (.fault e (some span)) m'
  | result => result

/-- Calls a primitive. -/
@[inline] def primitive (p : Primitive) (sink : Sink σ) (arg : Value) : Exec σ Value :=
  fun ⟨env, s⟩ =>
    match p.invoke sink arg s with
    | .ok v s' => .ok v ⟨env, s'⟩
    | .error e s' => .error (.fault e none) ⟨env, s'⟩

/-- Runs a part on a call stack of its own. The result is the same; only the depth to which calls
may be nested is not bounded by the stack that is in use. -/
def onFreshStack (x : Exec σ α) : Exec σ α := fun m =>
  (Task.spawn (fun _ => x m) .dedicated).get

/-- A fresh stack makes no difference to the result. -/
@[simp] theorem onFreshStack_eq (x : Exec σ α) : onFreshStack x = x :=
  rfl

end Exec

/-- How a statement ends: it is done, or it returns from the function. -/
inductive Flow
  | normal
  | returned (v : Value)
deriving Repr, Inhabited

/-- An argument that is ready to be bound. -/
inductive Argument
  | value (v : Value)
  | reference (p : Place)
deriving Repr, Inhabited

namespace Exec

variable {σ : Type}

/-- Declares a parameter in the current scope. -/
def declareArgument (p : ParamSignature) : Argument → Exec σ Unit
  | .value v => declare p.name v
  | .reference place => declareAlias p.name place

/-- Declares the parameters of a call in the current scope. -/
def declareArguments : List ParamSignature → List Argument → Exec σ Unit
  | p :: ps, arg :: args => do
    declareArgument p arg
    declareArguments ps args
  | _, _ => pure ()

/-- Stops if no further call may be running beside the present ones. -/
def checkDepth (options : RunOptions) (depth : Nat) : Exec σ Unit :=
  match options.maxCallDepth with
  | some limit => if limit ≤ depth then fail (.callDepthExceeded limit) else pure ()
  | none => pure ()

/-- The value that an assignment stores at a place, given the value of its right side. -/
def combined (op : Option ArithOp) (p : Place) (rhs : Value) : Exec σ Value :=
  match op with
  | none => pure rhs
  | some arith => do
    let held ← ask (·.store.read p)
    lift (arith.apply held rhs)

end Exec

/-- What a call yields when its body has ended; only the function `entry` may end without a
result, which then is zero. -/
def Signature.finish (s : Signature) (entry : String) : Flow → Except RuntimeError Value
  | .normal =>
    if s.returns = .void then .ok .void
    else if s.name = entry then (Value.int 0).convert s.returns
    else .error (.missingReturn s.name)
  | .returned .void =>
    if s.returns = .void then .ok .void
    else .error (.typeMismatch (.valueMissing s.name s.returns))
  | .returned v =>
    if s.returns = .void then .error (.typeMismatch (.valueFromVoid s.name v.shape))
    else v.convert s.returns

end SmallCpp
