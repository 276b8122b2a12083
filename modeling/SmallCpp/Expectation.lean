import SmallCpp.Interpret
import SmallCpp.Text.Blank

/-!
# Expectation files

An expectation file says what a program prints: one event a line, and on a line of its own, after
`error:`, the name of the failure it ends with. Blank lines and lines that start with `#` say
nothing. Characters that would clash with this layout are written with a backslash.
-/

namespace SmallCpp

/-- What a run is expected to do, or did. -/
structure Expectation where
  /-- The events, as lines. -/
  events : List String
  /-- The name of the failure, if the run fails. -/
  error : Option String
deriving DecidableEq, Repr, Inhabited

namespace Expectation

/-- What a line of the file says. -/
inductive Entry
  | event (line : String)
  | error (kind : String)
deriving DecidableEq, Repr

/-- What comes before the name of a failure. -/
def errorMark : List Char :=
  "error:".toList

/-- What a line says, if it is neither blank nor a remark. Carriage returns at its end do not
count. -/
def entry? (line : List Char) : Option Entry :=
  let text := Text.dropEndWhile (· = '\r') line
  if text.isEmpty || text.head? = some '#' then none
  else if errorMark.isPrefixOf text then
    some (.error (String.ofList (Text.trimmed (text.drop errorMark.length))))
  else
    some (.event (String.ofList text))

/-- What the entries of a file say together; the last error counts. -/
def ofEntries (entries : List Entry) : Expectation :=
  { events := entries.filterMap fun
      | .event line => some line
      | .error _ => none
    error := (entries.filterMap fun
      | .event _ => none
      | .error kind => some kind).getLast? }

/-- Reads an expectation file. -/
def parse (text : String) : Expectation :=
  ofEntries ((Text.split '\n' text.toList).filterMap entry?)

/-- An event as a line of an expectation file. -/
def lineOf : Event → String
  | .char 35 => "\\#"
  | .char 10 => "\\n"
  | .char 13 => "\\r"
  | event => event.text

/-- What a run did. -/
def ofRun (events : Array Event) (result : Except Failure Int64) : Expectation :=
  { events := events.toList.map lineOf
    error := match result with
      | .ok _ => none
      | .error failure => some failure.kind }

/-- The first place at which two lists of lines differ; the length of the shorter if one starts
the other. -/
def firstDifference : List String → List String → Nat
  | x :: xs, y :: ys => if x = y then firstDifference xs ys + 1 else 0
  | _, _ => 0

/-- How an expectation and a run differ, in a message about the file at `path`. -/
def difference (path : String) (expected actual : Expectation) : String :=
  let n := firstDifference expected.events actual.events
  let want := Text.quoted? expected.events[n]?
  let got := Text.quoted? actual.events[n]?
  let events := s!"{path}: output differs from expectation\n" ++
    s!"  first difference at event {n}: expected {want}, got {got}"
  if expected.error = actual.error then
    events
  else
    events ++ s!"\n  expected error {Text.quoted? expected.error}, " ++
      s!"got {Text.quoted? actual.error}"

end Expectation

end SmallCpp
