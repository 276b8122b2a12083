import SmallCpp.Conformance
import SmallCpp.Settings

/-!
# The command line

The first argument is the command: `run` a source file, `check` one, or `test` the conformance
cases. Flags override the settings file, which is read before the command is looked at.
-/

namespace SmallCpp.CommandLine

/-- How the tool is called. -/
def usage : String :=
  "Usage: minicpp [run|check|test] <file.cpp>... [--entry <name>] [--max-call-depth <n>] " ++
    "[--config <path>]"

/-- What the arguments ask for. -/
structure Request where
  /-- The command. -/
  command : String
  /-- The files. -/
  inputs : List String := []
  /-- The entry function, if given. -/
  entry : Option String := none
  /-- The limit on nested calls, if given. -/
  maxCallDepth : Option Nat := none
  /-- The settings file, if given. -/
  config : Option String := none
deriving DecidableEq, Repr

/-- Why arguments are refused. -/
inductive UsageError
  | missingCommand
  | missingValue (flag : String)
  | invalidDepth (text : String)
  | unknownFlag (flag : String)
deriving DecidableEq, Repr

/-- The wording of a usage error. -/
def UsageError.message : UsageError → String
  | missingCommand => "missing command"
  | missingValue flag => s!"`{flag}` needs a value"
  | invalidDepth text => s!"invalid call depth `{text}`"
  | unknownFlag flag => s!"unknown flag `{flag}`"

/-- The number that a text of decimal digits spells, after an optional plus sign, below 2^64. -/
def depth? (text : String) : Option Nat :=
  let digits := match text.toList with
    | '+' :: cs => cs
    | cs => cs
  if digits.isEmpty then none
  else do
    let n ← Text.number? 10 digits
    if n < Nat.pow 2 64 then some n else none

/-- Takes the arguments after the command. -/
def Request.take (r : Request) : List String → Except UsageError Request
  | [] => .ok r
  | "--entry" :: rest =>
    match rest with
    | value :: rest => { r with entry := some value }.take rest
    | [] => .error (.missingValue "--entry")
  | "--max-call-depth" :: rest =>
    match rest with
    | value :: rest =>
      match depth? value with
      | some n => { r with maxCallDepth := some n }.take rest
      | none => .error (.invalidDepth value)
    | [] => .error (.missingValue "--max-call-depth")
  | "--config" :: rest =>
    match rest with
    | value :: rest => { r with config := some value }.take rest
    | [] => .error (.missingValue "--config")
  | arg :: rest =>
    if arg.startsWith "--" then .error (.unknownFlag arg)
    else { r with inputs := r.inputs ++ [arg] }.take rest

/-- What the arguments ask for, or why they are refused. -/
def Request.ofArguments : List String → Except UsageError Request
  | [] => .error .missingCommand
  | command :: rest => { command : Request }.take rest

/-- What the tool prints, and the code it exits with. -/
structure Report where
  /-- The exit code. -/
  code : Nat
  /-- What is printed as output. -/
  stdout : ByteArray := ByteArray.empty
  /-- What is printed about errors, line by line. -/
  stderr : List String := []

namespace Report

/-- Ends with a message. -/
def failed (message : String) : Report :=
  { code := 1, stderr := [message] }

/-- The lines as bytes, each with its line feed. -/
def linesOf (lines : List String) : ByteArray :=
  (String.join (lines.map (· ++ "\n"))).toUTF8

end Report

/-- The exit code for a program's result: its lowest byte. -/
def exitCode (n : Int64) : Nat :=
  (Value.lowByte n).toNat

/-- Runs the source of the file `name`. -/
def runSource (name source : String) (options : RunOptions) : Report :=
  let (result, written) := interpretSource source options Sink.bytes ByteArray.empty
  match result with
  | .ok n => { code := exitCode n, stdout := written }
  | .error failure => { code := 1, stdout := written, stderr := Conformance.report name failure }

/-- Checks the source of the file `name`. -/
def checkFile (name source : String) (options : RunOptions) : Report :=
  match checkSource source options.entry with
  | .ok _ => { code := 0, stdout := Report.linesOf [s!"{name}: ok"] }
  | .error failure => { code := 1, stderr := Conformance.report name failure }

variable {m : Type → Type} [Monad m]

/-- Does something with the only file that is given. -/
def withFile (disk : Disk m) (r : Request) (act : String → String → Report) : m Report := do
  match r.inputs with
  | [path] =>
    match ← disk.read path with
    | .ok source => return act path source
    | .error e => return .failed s!"Could not read {path}: {e.message}"
  | _ => return .failed s!"`{r.command}` takes exactly one file\n{usage}"

/-- Runs conformance cases. -/
def test (disk : Disk m) (directory : String) (r : Request) (options : RunOptions) : m Report := do
  match ← Conformance.casesOf disk directory r.inputs with
  | .error message => return .failed message
  | .ok cases =>
    let summary ← Conformance.runCases disk options cases
    if summary.failures = 0 then
      let passed := s!"test result: ok. {cases.length} passed"
      return { code := 0, stdout := Report.linesOf (summary.lines ++ [passed]) }
    else
      let failed := s!"test result: FAILED. {summary.failures} test(s) failed"
      return { code := 1
               stdout := Report.linesOf summary.lines
               stderr := summary.notes ++ [failed] }

/-- How a run goes under the settings, except where the arguments say otherwise. -/
def Request.runOptions (r : Request) (settings : Settings) : RunOptions :=
  let configured := settings.runOptions
  { entry := r.entry.getD configured.entry
    maxCallDepth := r.maxCallDepth.or configured.maxCallDepth }

/-- Does what the arguments ask for. -/
def Request.execute (disk : Disk m) (r : Request) : m Report := do
  let loaded ← match r.config with
    | some path => Settings.load disk path
    | none => Settings.discover disk "."
  match loaded with
  | .error e => return .failed e.message
  | .ok settings =>
    let options := r.runOptions settings
    match r.command with
    | "run" => withFile disk r fun name source => runSource name source options
    | "check" => withFile disk r fun name source => checkFile name source options
    | "test" => test disk settings.testDir r options
    | other => return .failed s!"unknown command `{other}`\n{usage}"

/-- The whole tool: from arguments to what is printed. -/
def run (disk : Disk m) (args : List String) : m Report := do
  match Request.ofArguments args with
  | .ok r => r.execute disk
  | .error e => return { code := 2, stderr := [e.message ++ "\n" ++ usage] }

end SmallCpp.CommandLine
