import SmallCpp.Text.Blank

/-!
# Paths

A path is a text of components between slashes. Empty components, and a dot after a slash, change
nothing about what a path names; so the file name of `a/b.c/./` is `b.c`.
-/

namespace SmallCpp.Path

/-- A reversed path without what changes nothing at its end. -/
def dropNoise : List Char → List Char
  | '/' :: cs => dropNoise cs
  | '.' :: '/' :: cs => dropNoise ('/' :: cs)
  | cs => cs

/-- The path in reverse: its last component, and what comes before it. -/
def lastReversed (path : String) : List Char × List Char :=
  (dropNoise path.toList.reverse).span (· ≠ '/')

/-- The last component of a path, if it names an entry of a directory. -/
def fileName? (path : String) : Option (List Char) :=
  match (lastReversed path).1.reverse with
  | [] | ['.'] | ['.', '.'] => none
  | name => some name

/-- The part of a file name before its last dot, and the part after it; a dot in front starts no
extension. -/
def splitName (name : List Char) : List Char × Option (List Char) :=
  let (after, before) := name.reverse.span (· ≠ '.')
  match before with
  | [] | [_] => (name, none)
  | _ :: stem => (stem.reverse, some after.reverse)

/-- The file name without its extension. -/
def stem? (path : String) : Option String :=
  (fileName? path).map fun name => String.ofList (splitName name).1

/-- The extension of the file name. -/
def extension? (path : String) : Option String :=
  ((fileName? path).bind fun name => (splitName name).2).map String.ofList

/-- The path without as many characters at its end as its extension has; the dot stays. -/
def cutExtension (path : String) : String :=
  match extension? path with
  | none => path
  | some old => String.ofList (path.toList.take (path.length - old.length))

/-- The path with an extension put after its stem; a path without a file name stays. -/
def setExtension (path extension : String) : String :=
  match fileName? path with
  | none => path
  | some name =>
    let directory := (lastReversed path).2.reverse
    String.ofList (directory ++ (splitName name).1 ++ '.' :: extension.toList)

/-- The path with another extension. The old one is cut first: what is left of `..c` is `..`, which
is no file name and so gets none. -/
def withExtension (path extension : String) : String :=
  setExtension (cutExtension path) extension

/-- The path of an entry of a directory. -/
def join (directory name : String) : String :=
  if directory.isEmpty || directory.endsWith "/" then directory ++ name
  else directory ++ "/" ++ name

end SmallCpp.Path
