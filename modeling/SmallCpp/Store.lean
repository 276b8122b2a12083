import SmallCpp.Value

/-!
# Storage

The store is a row of cells, each of which holds one value. A place is a cell with a path into its
value, so that an element of an array or a field of a record can be read, written and bound to a
reference on its own. Cells are never taken back: a place stays valid for good. Writing converts
to the type that is held at the place already.
-/

namespace SmallCpp

/-- One step from a value to a part of it. -/
inductive Step
  | elem (slot : Nat)
  | field (slot : Nat)
deriving DecidableEq, Repr

namespace Value

/-- The part of a value at the end of a path. -/
def follow : List Step → Value → Except RuntimeError Value
  | [], v => .ok v
  | .elem slot :: path, v@(array elems) =>
    match elems[slot]? with
    | some part => part.follow path
    | none => .error (.typeMismatch (.notSteppable v.shape))
  | .field slot :: path, v@(record _ _ fields) =>
    match fields[slot]? with
    | some part => part.follow path
    | none => .error (.typeMismatch (.notSteppable v.shape))
  | _ :: _, v => .error (.typeMismatch (.notSteppable v.shape))

/-- The value with the part at the end of a path changed. -/
def modify (f : Value → Except RuntimeError Value) : List Step → Value → Except RuntimeError Value
  | [], v => f v
  | .elem slot :: path, v@(array elems) =>
    match elems[slot]? with
    | some part => do return array (elems.set slot (← part.modify f path))
    | none => .error (.typeMismatch (.notSteppable v.shape))
  | .field slot :: path, v@(record name layout fields) =>
    match fields[slot]? with
    | some part => do return record name layout (fields.set slot (← part.modify f path))
    | none => .error (.typeMismatch (.notSteppable v.shape))
  | _ :: _, v => .error (.typeMismatch (.notSteppable v.shape))

end Value

/-- A cell and a path into its value. -/
structure Place where
  /-- The number of the cell. -/
  cell : Nat
  /-- The steps from the cell's value to the part, outermost first. -/
  path : List Step
deriving DecidableEq, Repr, Inhabited

/-- The place one step further in. -/
def Place.extend (p : Place) (step : Step) : Place :=
  ⟨p.cell, p.path ++ [step]⟩

/-- The storage of a run. -/
structure Store where
  /-- The values of the cells, in the order of their allocation. -/
  cells : Array Value
deriving Repr, Inhabited

namespace Store

/-- The store without cells. -/
def empty : Store :=
  ⟨#[]⟩

/-- The value of a cell. -/
def cell (s : Store) (n : Nat) : Value :=
  s.cells.getD n .void

/-- A new cell that holds the value, and its number. -/
def alloc (s : Store) (v : Value) : Nat × Store :=
  (s.cells.size, ⟨s.cells.push v⟩)

/-- The value at a place. -/
def read (s : Store) (p : Place) : Except RuntimeError Value :=
  (s.cell p.cell).follow p.path

/-- The type of the value at a place. -/
def typeAt (s : Store) (p : Place) : Except RuntimeError ValueType :=
  (s.read p).map Value.type

/-- The store with another value in a cell. -/
def setCell (s : Store) (n : Nat) (v : Value) : Store :=
  ⟨s.cells.setIfInBounds n v⟩

/-- What the cell of a place holds once a value is stored at the place, converted to the type held
there. -/
def updated (s : Store) (p : Place) (v : Value) : Except RuntimeError Value :=
  (s.cell p.cell).modify (fun old => v.convert old.type) p.path

/-- Stores a value, converted to the type held at the place. -/
def write (s : Store) (p : Place) (v : Value) : Except RuntimeError Store :=
  (s.updated p v).map (s.setCell p.cell)

/-- The place of an element of the array at a place. -/
def element (s : Store) (p : Place) (index : Int64) : Except RuntimeError Place := do
  match ← s.read p with
  | .array elems =>
    match Value.slot? index elems.length with
    | some slot => return p.extend (.elem slot)
    | none => .error (.indexOutOfRange index elems.length)
  | v => .error (.typeMismatch (.notIndexable v.shape))

/-- The place of a field of the record at a place. -/
def member (s : Store) (p : Place) (id : String) : Except RuntimeError Place := do
  match ← s.read p with
  | .record name layout _ =>
    match Layout.indexOf? layout id with
    | some slot => return p.extend (.field slot)
    | none => .error (.unknownField name id)
  | v => .error (.typeMismatch (.notRecord id v.shape))

end Store

end SmallCpp
