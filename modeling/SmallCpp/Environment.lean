import SmallCpp.Store

/-!
# Names and storage

The environment holds the store, the global names and a stack of frames, one for each call that is
running. A frame has a stack of scopes, one for each block that is entered. A name is looked up in
the scopes of the topmost frame, innermost first, and then among the globals: the frames of callers
are never searched.
-/

namespace SmallCpp

/-- Whether a name has storage of its own. -/
inductive BindingKind
  | owned | alias
deriving DecidableEq, Repr, Inhabited

/-- What a name stands for. -/
structure Binding where
  /-- The storage. -/
  place : Place
  /-- Whether it belongs to the name. -/
  kind : BindingKind
deriving DecidableEq, Repr, Inhabited

/-- The names declared in one block, the latest first. -/
abbrev Scope := List (String × Binding)

/-- A running call. -/
structure Frame where
  /-- The function that was called. -/
  function : String
  /-- The scopes entered, innermost first; the last holds the parameters. -/
  scopes : List Scope
deriving DecidableEq, Repr, Inhabited

/-- Storage and names of a run. -/
structure Environment where
  /-- The storage. -/
  store : Store
  /-- The global names. -/
  globals : Scope
  /-- The running calls, the latest first. -/
  frames : List Frame
deriving Repr, Inhabited

namespace Environment

/-- The environment without storage, names and calls. -/
def empty : Environment :=
  ⟨Store.empty, [], []⟩

/-- The number of running calls. -/
def depth (env : Environment) : Nat :=
  env.frames.length

/-- The function that is running, if any. -/
def currentFunction? (env : Environment) : Option String :=
  env.frames.head?.map Frame.function

/-- Starts a call. -/
def pushFrame (env : Environment) (function : String) : Environment :=
  { env with frames := ⟨function, [[]]⟩ :: env.frames }

/-- Ends the latest call. -/
def popFrame (env : Environment) : Environment :=
  { env with frames := env.frames.tail }

/-- Enters a block of the running call. -/
def enter (env : Environment) : Environment :=
  match env.frames with
  | frame :: callers =>
    { env with frames := { frame with scopes := [] :: frame.scopes } :: callers }
  | [] => env

/-- Leaves the innermost block; the scope of the parameters stays. -/
def leave (env : Environment) : Environment :=
  match env.frames with
  | ⟨function, _ :: outer :: scopes⟩ :: callers =>
    { env with frames := ⟨function, outer :: scopes⟩ :: callers }
  | _ => env

/-- The scope in which names are declared: the innermost of the running call, or the globals. -/
def currentScope (env : Environment) : Scope :=
  match env.frames with
  | ⟨_, scope :: _⟩ :: _ => scope
  | _ => env.globals

/-- Binds a name in the current scope. -/
def bind (env : Environment) (name : String) (binding : Binding) : Environment :=
  match env.frames with
  | ⟨function, scope :: scopes⟩ :: callers =>
    { env with frames := ⟨function, ((name, binding) :: scope) :: scopes⟩ :: callers }
  | _ => { env with globals := (name, binding) :: env.globals }

/-- Whether the current scope has the name already. -/
def declares (env : Environment) (name : String) : Bool :=
  (env.currentScope.lookup name).isSome

/-- Binds a name in the current scope to new storage that holds the value. -/
def bindNew (env : Environment) (name : String) (v : Value) : Environment :=
  let (cell, store) := env.store.alloc v
  { env with store }.bind name ⟨⟨cell, []⟩, .owned⟩

/-- Declares a name with new storage that holds the value. -/
def declare (env : Environment) (name : String) (v : Value) : Except RuntimeError Environment :=
  if env.declares name then .error (.duplicateDeclaration name) else .ok (env.bindNew name v)

/-- Declares a name for storage that exists. -/
def declareAlias (env : Environment) (name : String) (p : Place) :
    Except RuntimeError Environment :=
  if env.declares name then .error (.duplicateDeclaration name)
  else .ok (env.bind name ⟨p, .alias⟩)

/-- The scopes in which names are looked up, in order. -/
def visibleScopes (env : Environment) : List Scope :=
  match env.frames with
  | frame :: _ => frame.scopes ++ [env.globals]
  | [] => [env.globals]

/-- What a name stands for. -/
def binding (env : Environment) (name : String) : Except RuntimeError Binding :=
  match env.visibleScopes.findSome? (·.lookup name) with
  | some b => .ok b
  | none => .error (.unknownIdentifier name)

/-- The storage of a name. -/
def lookup (env : Environment) (name : String) : Except RuntimeError Place :=
  (env.binding name).map Binding.place

/-- The value of a name. -/
def get (env : Environment) (name : String) : Except RuntimeError Value := do
  env.store.read (← env.lookup name)

/-- The environment with another value in a cell. -/
def setCell (env : Environment) (n : Nat) (v : Value) : Environment :=
  { env with store := env.store.setCell n v }

/-- Stores a value at a place. -/
def write (env : Environment) (p : Place) (v : Value) : Except RuntimeError Environment :=
  (env.store.updated p v).map (env.setCell p.cell)

/-- Stores a value under a name. -/
def assign (env : Environment) (name : String) (v : Value) : Except RuntimeError Environment := do
  env.write (← env.lookup name) v

end Environment

end SmallCpp
