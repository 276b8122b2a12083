import SmallCpp.Evaluation

/-!
# Running a program

The records are defined in source order, then the functions are collected, then the globals are
initialized in source order, and last the entry function is called without arguments. The result
of the run is the entry function's result as an integer, or zero if it has none.
-/

namespace SmallCpp

/-- Defines records in order; the fault of one stands at its definition. -/
def TypeTable.defineAll (t : TypeTable) : List RecordDecl → Except Stop TypeTable
  | [] => .ok t
  | decl :: rest =>
    match t.define decl with
    | .ok t' => t'.defineAll rest
    | .error e => .error (.fault e (some decl.span))

namespace Program

variable {σ : Type}

/-- What is fixed for a run of the program, or why it cannot start. -/
def context (p : Program) (options : RunOptions) (sink : Sink σ) : Except Stop (Context σ) := do
  let types ← TypeTable.empty.defineAll p.records
  match FunctionTable.build types p with
  | .ok functions => return ⟨types, functions, options, sink⟩
  | .error e => .error (.fault e none)

/-- Initializes the globals and calls the entry function. -/
def execute (p : Program) (ctx : Context σ) (fuel : Nat) : Exec σ Int64 := do
  Exec.declareVars ctx fuel p.globals
  let entry ← Exec.lift (ctx.functions.get ctx.options.entry)
  let params := entry.signature.params
  if params.isEmpty then
    match ← Exec.invoke ctx fuel entry [] with
    | .void => return 0
    | v => Exec.lift v.asInt
  else
    Exec.fail (.arityMismatch entry.signature.name params.length 0)

/-- Runs a program with at most `fuel` nested steps, from a state of the sink to the state after
the run. -/
def run (p : Program) (options : RunOptions) (sink : Sink σ) (fuel : Nat) (s : σ) :
    Except Stop Int64 × σ :=
  match p.context options sink with
  | .error stop => (.error stop, s)
  | .ok ctx =>
    match p.execute ctx fuel ⟨Environment.empty, s⟩ with
    | .ok n m => (.ok n, m.sink)
    | .error stop m => (.error stop, m.sink)

end Program

end SmallCpp
