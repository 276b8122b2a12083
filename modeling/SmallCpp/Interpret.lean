import SmallCpp.CallCheck
import SmallCpp.Program.Parser
import SmallCpp.Run

/-!
# From source text to result

A source is read, its calls are checked, and the program is run. Each stage may fail, and a later
one is entered only if the earlier ones succeed.
-/

namespace SmallCpp

/-- Why a source yields no result. -/
inductive Failure
  | unreadable (errors : List SyntaxError)
  | refused (errors : List CallError)
  | fault (error : RuntimeError) (span : Option Span)
  /-- The bound on the steps was used up. -/
  | unfinished
deriving Repr

namespace Failure

/-- The name of a failure, as expectation files write it. -/
def kind : Failure → String
  | unreadable _ => "SyntaxError"
  | refused _ => "TypeError"
  | fault error _ => error.kind
  | unfinished => "Unfinished"

/-- One line about a failure. -/
def message : Failure → String
  | unreadable errors => SyntaxError.summary errors
  | refused errors => s!"{errors.length} type error(s)"
  | fault error _ => error.message
  | unfinished => "the run did not end"

/-- What is shown of the errors found before the run. -/
def diagnostics : Failure → List Diagnostic
  | unreadable errors => errors.map SyntaxError.diagnostic
  | refused errors => errors.map CallError.diagnostic
  | _ => []

/-- The failure of a run that stopped. -/
def ofStop : Stop → Failure
  | .fault error span => fault error span
  | .outOfFuel => unfinished

end Failure

/-- Reads a source. -/
def readSource (source : String) : Except Failure Program :=
  (Program.parse source).mapError .unreadable

/-- Reads a source and checks its calls. -/
def checkSource (source entry : String) : Except Failure Program := do
  let p ← readSource source
  match p.callErrors entry with
  | [] => return p
  | errors => .error (.refused errors)

/-- A bound on nested steps that no run comes near. -/
def ampleFuel : Nat :=
  Nat.pow 2 62

variable {σ : Type}

/-- Runs a program, checked or not. -/
def interpretProgram (p : Program) (options : RunOptions) (sink : Sink σ) (s : σ) :
    Except Failure Int64 × σ :=
  let (result, s') := p.run options sink ampleFuel s
  (result.mapError .ofStop, s')

/-- Reads, checks and runs a source. -/
def interpretSource (source : String) (options : RunOptions) (sink : Sink σ) (s : σ) :
    Except Failure Int64 × σ :=
  match checkSource source options.entry with
  | .ok p => interpretProgram p options sink s
  | .error failure => (.error failure, s)

end SmallCpp
