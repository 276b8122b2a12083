import SmallCpp.Primitive
import SmallCpp.Value

/-!
# Output

A program's output is a sequence of events, one for each call of a primitive. A sink takes the
events one by one and may refuse one, which ends the run.
-/

namespace SmallCpp

/-- One thing printed. -/
inductive Event
  | int (n : Int64)
  | char (c : UInt8)
  | bool (b : Bool)
deriving DecidableEq, Repr

namespace Event

/-- The event as text; a truth value is written as a digit. -/
def text : Event → String
  | int n => toString n.toInt
  | char c => (Char.ofNat c.toNat).toString
  | bool b => if b then "1" else "0"

/-- The event as a line of bytes; a character is one byte, whatever its value. -/
def line : Event → List UInt8
  | char c => [c, 10]
  | event => event.text.toUTF8.toList ++ [10]

end Event

/-- A destination of output with the state `σ`: it takes an event or gives the reason why not. -/
structure Sink (σ : Type) where
  /-- Takes one event. -/
  emit : Event → EStateM String σ Unit

namespace Sink

/-- Keeps every event. -/
def recording : Sink (Array Event) :=
  ⟨fun event => modify (·.push event)⟩

/-- Keeps the first `capacity` events and refuses the next. -/
def bounded (capacity : Nat) : Sink (Array Event) :=
  ⟨fun event events =>
    if events.size < capacity then .ok () (events.push event) else .error "sink full" events⟩

/-- Writes every event as a line of bytes. -/
def bytes : Sink ByteArray :=
  ⟨fun event => modify fun written => event.line.foldl ByteArray.push written⟩

end Sink

/-- The event that a primitive makes of its argument. -/
def Primitive.event (p : Primitive) (arg : Value) : Except RuntimeError Event :=
  match p with
  | printInt => arg.asInt.map .int
  | printChar => arg.asChar.map .char
  | printBool => arg.asBool.map .bool

/-- Calls a primitive: its argument is converted, and the event goes to the sink. -/
def Primitive.invoke {σ : Type} (p : Primitive) (sink : Sink σ) (arg : Value) :
    EStateM RuntimeError σ Value := fun s =>
  match p.event arg with
  | .error e => .error e s
  | .ok event =>
    match sink.emit event s with
    | .ok () s' => .ok .void s'
    | .error reason s' => .error (.output reason) s'

end SmallCpp
