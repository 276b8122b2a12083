import SmallCpp.Disk
import SmallCpp.Machine
import SmallCpp.Settings.Toml

/-!
# Settings

The settings file has two tables: `run` with the entry function and the limit on nested calls, and
`test` with the directory of conformance cases. Every setting may be left out. A table may be
written under a header, between braces or with dotted keys, but only in one of these ways; no
setting may be given twice, and no other key is taken.
-/

namespace SmallCpp

/-- How programs are run and where cases are found. -/
structure Settings where
  /-- The function called first. -/
  entry : String := "main"
  /-- How many calls may be running at once. -/
  maxCallDepth : Option Nat := some 10000
  /-- The directory of conformance cases. -/
  testDir : String := "tests/conformance"
deriving DecidableEq, Repr, Inhabited

namespace Settings

/-- The name of the settings file. -/
def fileName : String :=
  "minicpp.toml"

/-- How a run goes under the settings. -/
def runOptions (s : Settings) : RunOptions :=
  ⟨s.entry, s.maxCallDepth⟩

/-- The ways to write a table. -/
inductive Opening
  | header | braces | dotted
deriving DecidableEq, Repr

/-- What has been read of a settings file. -/
structure Reading where
  /-- The settings so far. -/
  settings : Settings
  /-- The tables begun, and how each is written. -/
  opened : List (String × Opening)
  /-- The settings given. -/
  given : List (String × String)
  /-- The table of the last header. -/
  current : Option String

namespace Reading

/-- Nothing read yet. -/
def start : Reading :=
  ⟨{}, [], [], none⟩

/-- Begins a table, or goes on with one written with dotted keys. -/
def openTable (r : Reading) (table : String) (opening : Opening) : Option Reading :=
  if table = "run" || table = "test" then
    match r.opened.lookup table with
    | none => some { r with opened := (table, opening) :: r.opened }
    | some .dotted => if opening = .dotted then some r else none
    | some _ => none
  else
    none

/-- The settings with one of them changed, if the value is of its kind. -/
def changed (s : Settings) : String → String → Toml.Scalar → Option Settings
  | "run", "entry", .text entry => some { s with entry }
  | "run", "max_call_depth", .integer n =>
    if 0 ≤ n then some { s with maxCallDepth := some n.toNat } else none
  | "test", "dir", .text testDir => some { s with testDir }
  | _, _, _ => none

/-- Takes one setting. -/
def give (r : Reading) (table setting : String) (v : Toml.Scalar) : Option Reading :=
  if (table, setting) ∈ r.given then none
  else (changed r.settings table setting v).map fun settings =>
    { r with settings, given := (table, setting) :: r.given }

/-- Takes the settings of a table between braces. -/
def giveAll (table : String) (r : Reading) : List (Toml.Key × Toml.Scalar) → Option Reading
  | [] => some r
  | ([setting], v) :: rest => do (← r.give table setting v).giveAll table rest
  | _ => none

/-- Takes one line. -/
def line (r : Reading) : Toml.Line → Option Reading
  | .nothing => some r
  | .header [table] =>
    (r.openTable table .header).map fun r => { r with current := some table }
  | .header _ => none
  | .entry key v =>
    match r.current, key, v with
    | some table, [setting], .scalar s => r.give table setting s
    | none, [table, setting], .scalar s => do (← r.openTable table .dotted).give table setting s
    | none, [table], .table entries => do (← r.openTable table .braces).giveAll table entries
    | _, _, _ => none

end Reading

/-- Reads the text of a settings file, or refuses it. -/
def parse? (text : String) : Option Settings := do
  let lines ← Toml.lines? text
  let reading ← lines.foldlM Reading.line Reading.start
  return reading.settings

/-- Why settings cannot be loaded. -/
inductive LoadError
  | access (path : String) (error : AccessError)
  | invalid (path : String)
deriving DecidableEq, Repr

/-- The wording of a load error. -/
def LoadError.message : LoadError → String
  | access path error => s!"failed to read {path}: {error.message}"
  | invalid path => s!"invalid configuration in {path}"

variable {m : Type → Type} [Monad m]

/-- Loads the settings file at a path. -/
def load (disk : Disk m) (path : String) : m (Except LoadError Settings) := do
  match ← disk.read path with
  | .error e => return .error (.access path e)
  | .ok text =>
    match parse? text with
    | some settings => return .ok settings
    | none => return .error (.invalid path)

/-- Loads the settings file of a directory; without one, every setting has its default. -/
def discover (disk : Disk m) (directory : String) : m (Except LoadError Settings) := do
  let path := Path.join directory fileName
  if ← disk.isFile path then load disk path else return .ok {}

end Settings

end SmallCpp
