import SmallCpp.Span

/-!
# Diagnostics

What is shown to the user about one error found before the program runs.
-/

namespace SmallCpp

/-- A message about a part of the source. -/
structure Diagnostic where
  /-- What is wrong. -/
  message : String
  /-- The text at the marked part of the source. -/
  label : String
  /-- The marked part of the source. -/
  span : Span
  /-- How it may be mended. -/
  help : Option String
deriving DecidableEq, Repr

end SmallCpp
