import SmallCpp.Disk
import SmallCpp.Expectation

/-!
# Conformance cases

A case is a source file beside an expectation file of the same stem. It passes if a run of the
source prints the expected events and ends with the expected failure, or with none.
-/

namespace SmallCpp.Conformance

/-- The extension of source files. -/
def sourceExtension : String :=
  "cpp"

/-- The extension of expectation files. -/
def expectedExtension : String :=
  "expected"

/-- What a run of a source does. -/
def actual (source : String) (options : RunOptions) : Expectation × Except Failure Int64 :=
  let (result, events) := interpretSource source options Sink.recording #[]
  (Expectation.ofRun events result, result)

/-- What is shown of a failure of the file at `path`. -/
def report (path : String) (failure : Failure) : List String :=
  match failure with
  | .fault error span =>
    let place := (span.map fun s => s!":{s.start}").getD ""
    [s!"{path}{place}: runtime error: {error.message}"]
  | .unfinished => [s!"{path}: {failure.message}"]
  | _ => failure.diagnostics.map fun d => s!"{path}:{d.span.start}: {d.message}"

/-- Compares a source with the text of its expectation file; a failing case gives the lines to
show, the difference last. -/
def verdict (path source expected : String) (options : RunOptions) : Except (List String) Unit :=
  let wanted := Expectation.parse expected
  let (did, result) := actual source options
  if did = wanted then .ok ()
  else
    let notes := match result with
      | .error (.unreadable errors) => report path (.unreadable errors)
      | .error (.refused errors) => report path (.refused errors)
      | _ => []
    .error (notes ++ [Expectation.difference path wanted did])

/-- The message about a path that cannot be read. -/
def unreadable (path : String) (e : AccessError) : String :=
  s!"failed to read {path}: {e.message}"

variable {m : Type → Type} [Monad m]

/-- Runs the case of one source file. -/
def runCase (disk : Disk m) (path : String) (options : RunOptions) :
    m (Except (List String) Unit) := do
  match ← disk.read path with
  | .error e => return .error [unreadable path e]
  | .ok source =>
    let beside := Path.withExtension path expectedExtension
    match ← disk.read beside with
    | .error e => return .error [unreadable beside e]
    | .ok expected => return verdict path source expected options

/-- The source files of a directory that have an expectation file, in the order of their names. -/
def discover (disk : Disk m) (directory : String) : m (Except String (List String)) := do
  match ← disk.list directory with
  | .error e => return .error (unreadable directory e)
  | .ok names =>
    let paths := names.map (Path.join directory)
    let sources := paths.filter fun path => Path.extension? path = some sourceExtension
    let cases ← sources.filterM fun path => disk.isFile (Path.withExtension path expectedExtension)
    return .ok (cases.mergeSort fun a b => decide (a ≤ b))

/-- The name under which a case is listed. -/
def caseName (path : String) : String :=
  (Path.stem? path).getD path

/-- What a run of several cases shows. -/
structure Summary where
  /-- One line for each case. -/
  lines : List String
  /-- What is to be said of the failing cases. -/
  notes : List String
  /-- The number of failing cases. -/
  failures : Nat

/-- Runs cases in order. -/
def runCases (disk : Disk m) (options : RunOptions) : List String → m Summary
  | [] => return ⟨[], [], 0⟩
  | path :: rest => do
    let result ← runCase disk path options
    let others ← runCases disk options rest
    let name := caseName path
    match result with
    | .ok () => return { others with lines := s!"test name:{name} status:ok" :: others.lines }
    | .error notes =>
      return { lines := s!"test name:{name} status:failed" :: others.lines
               notes := notes ++ others.notes
               failures := others.failures + 1 }

/-- The cases to run: the given ones, or all those of the directory. -/
def casesOf (disk : Disk m) (directory : String) (targets : List String) :
    m (Except String (List String)) := do
  let found ← if targets.isEmpty then discover disk directory else pure (.ok targets)
  match found with
  | .ok [] =>
    return .error (s!"No tests found (looked for *.{sourceExtension} " ++
      s!"with a .{expectedExtension} file under {directory})")
  | other => return other

end SmallCpp.Conformance
