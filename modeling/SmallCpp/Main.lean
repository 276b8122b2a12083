import SmallCpp.CommandLine

/-!
# The executable

Answers the tool's questions from the file system and prints its report.
-/

namespace SmallCpp

/-- An error of the file system. -/
def AccessError.ofSystem : IO.Error → AccessError
  | .noFileOrDirectory .. => .notFound
  | .inappropriateType _ code details | .permissionDenied _ code details
  | .invalidArgument _ code details =>
    if code = 20 then .notDirectory
    else if code = 21 then .isDirectory
    else if code = 36 then .nameTooLong
    else .other s!"{details} (os error {code})"
  | e => .other (toString e)

/-- Does something with files, and keeps its error. -/
def attempt {α : Type} (act : IO α) : IO (Except AccessError α) := do
  try
    return .ok (← act)
  catch e =>
    return .error (.ofSystem e)

/-- Access to the files below the current directory. -/
def fileSystem : Disk IO :=
  { read := fun path => attempt (IO.FS.readFile path)
    isFile := fun path => do
      let here ← IO.currentDir
      match ← attempt (here / path).metadata with
      | .ok data => return data.type == .file
      | .error _ => return false
    list := fun path => do
      if path.isEmpty then
        return .error .notFound
      else
        attempt do
          let here ← IO.currentDir
          return ((← (here / path).readDir).map (·.fileName)).toList }

end SmallCpp

/-- Runs the tool on its arguments. -/
def main (args : List String) : IO UInt32 := do
  let report ← SmallCpp.CommandLine.run SmallCpp.fileSystem args
  let stdout ← IO.getStdout
  stdout.write report.stdout
  stdout.flush
  for line in report.stderr do
    IO.eprintln line
  return report.code.toUInt32
