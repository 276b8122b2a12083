import SmallCpp.Path

/-!
# Files

What the tools ask of files: to read one, whether a path is one, and the names in a directory.
`Disk` holds these questions for any way of answering them; `FileTree.disk` answers them from a
finite list of files. A path may lead out of the tree: the directories around it exist, but nothing
is known of what else they hold.
-/

namespace SmallCpp

/-- Why a path cannot be read. -/
inductive AccessError
  | notFound | notDirectory | isDirectory | nameTooLong | nulInName
  | other (text : String)
deriving DecidableEq, Repr

/-- The wording of an access error. -/
def AccessError.message : AccessError → String
  | notFound => "No such file or directory (os error 2)"
  | notDirectory => "Not a directory (os error 20)"
  | isDirectory => "Is a directory (os error 21)"
  | nameTooLong => "File name too long (os error 36)"
  | nulInName => "file name contained an unexpected NUL byte"
  | other text => text

/-- Access to files. -/
structure Disk (m : Type → Type) where
  /-- The text of a file. -/
  read : String → m (Except AccessError String)
  /-- Whether the path names a file. -/
  isFile : String → m Bool
  /-- The names of a directory's entries. -/
  list : String → m (Except AccessError (List String))

/-- A directory that holds the given files and the directories they stand in. -/
structure FileTree where
  /-- The components of each file's path, and its text. -/
  files : List (List String × String)
deriving Repr, Inhabited

namespace FileTree

/-- The components of a path. -/
def components (path : String) : List String :=
  ((Text.split '/' path.toList).map String.ofList).filter fun c => c ≠ "" && c ≠ "."

/-- The tree of files given by path and text. -/
def ofList (files : List (String × String)) : FileTree :=
  ⟨files.map fun (path, text) => (components path, text)⟩

/-- The text of the file with the given components. -/
def text? (t : FileTree) (place : List String) : Option String :=
  t.files.lookup place

/-- Whether the components name a directory. -/
def isDirectory (t : FileTree) (place : List String) : Bool :=
  place.isEmpty || t.files.any fun (file, _) => place.isPrefixOf file && place ≠ file

/-- Checks that the components name a directory. -/
def enter (t : FileTree) (place : List String) : Except AccessError Unit :=
  if t.isDirectory place then .ok ()
  else if (t.text? place).isSome then .error .notDirectory
  else .error .notFound

/-- Where a path leads. -/
inductive Location
  /-- To the components, which start at the directory of the tree. -/
  | inside (place : List String)
  /-- To a directory around the tree. -/
  | around
deriving DecidableEq, Repr

/-- The most bytes that a component may have. -/
def maxNameBytes : Nat :=
  255

/-- The most bytes that a path may have. -/
def maxPathBytes : Nat :=
  4095

/-- Follows one component; two dots lead to the directory that holds the present one. -/
def step (t : FileTree) : Location → String → Except AccessError Location
  | .around, c =>
    if c = ".." then .ok .around
    else if maxNameBytes < c.utf8ByteSize then .error .nameTooLong
    else .error .notFound
  | .inside place, c => do
    t.enter place
    if c = ".." then
      return if place.isEmpty then .around else .inside place.dropLast
    else if maxNameBytes < c.utf8ByteSize then
      .error .nameTooLong
    else
      return .inside (place ++ [c])

/-- Whether a path says at its end that it names a directory. -/
def endsInDirectory (path : String) : Bool :=
  path.endsWith "/" || path.endsWith "/."

/-- Where a path starts: a slash in front stands for the directory around all others. -/
def start (path : String) : Location :=
  if path.startsWith "/" then .around else .inside []

/-- Checks that a path is not empty and can be looked up at all. -/
def checkPath (path : String) : Except AccessError Unit :=
  if path.contains '\x00' then .error .nulInName
  else if path.isEmpty then .error .notFound
  else if maxPathBytes < path.utf8ByteSize then .error .nameTooLong
  else .ok ()

/-- What a path names, or why it names nothing. -/
def locate (t : FileTree) (path : String) : Except AccessError Location := do
  checkPath path
  match ← (components path).foldlM t.step (start path) with
  | .around => return .around
  | .inside place =>
    match t.text? place with
    | some _ => if endsInDirectory path then .error .notDirectory else return .inside place
    | none => if t.isDirectory place then return .inside place else .error .notFound

/-- The text of the file that a path names. -/
def read (t : FileTree) (path : String) : Except AccessError String := do
  match ← t.locate path with
  | .around => .error .isDirectory
  | .inside place =>
    match t.text? place with
    | some text => return text
    | none => .error .isDirectory

/-- Whether a path names a file. -/
def isFile (t : FileTree) (path : String) : Bool :=
  match t.read path with
  | .ok _ => true
  | .error _ => false

/-- The names in the directory that a path names; none are known around the tree. -/
def list (t : FileTree) (path : String) : Except AccessError (List String) := do
  match ← t.locate path with
  | .around => return []
  | .inside place =>
    if t.isDirectory place then
      return (t.files.filterMap fun (file, _) =>
        if place.isPrefixOf file then (file.drop place.length).head? else none).eraseDups
    else
      .error .notDirectory

/-- Access to the files of the tree. -/
def disk (t : FileTree) : Disk Id :=
  { read := fun path => pure (t.read path)
    isFile := fun path => pure (t.isFile path)
    list := fun path => pure (t.list path) }

end FileTree

end SmallCpp
