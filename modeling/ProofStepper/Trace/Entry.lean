import ProofStepper.Json.Shape

/-!
# Execution traces

A trace is the list of states that a client highlights to explain how a state was
reached, each under its client number, with its colour and whether the number is shown
beside it.
-/

namespace ProofStepper

/-- How much of a run a trace shows: the path alone, or its surroundings too. -/
inductive TraceMode where
  | simple
  | advanced
deriving DecidableEq, Repr, Inhabited

structure TraceStyle where
  mode : TraceMode := .simple
  dark : Bool := false
deriving DecidableEq, Repr, Inhabited

namespace Colour

/-- The states on the path. -/
def accent (dark : Bool) : String := if dark then "yellow" else "orange"

/-- The states around it. -/
def muted (dark : Bool) : String := if dark then "grey" else "darkgrey"

/-- The heading of the current snapshot. -/
def current : String := "red"

/-- The heading of the snapshot before it. -/
def previous : String := "green"

end Colour

structure TraceEntry where
  state : Nat
  colour : String
  showNumber : Bool := true
deriving DecidableEq, Repr, Inhabited

abbrev Trace := List TraceEntry

def Trace.states (t : Trace) : List Nat := t.map (·.state)

open Json

def TraceMode.choices : List (String × TraceMode) :=
  [("Simple", .simple), ("Advanced", .advanced)]

def TraceMode.toJson : TraceMode → Json
  | .simple => .str "Simple"
  | .advanced => .str "Advanced"

def TraceMode.ofJson (v : Json) : Reading TraceMode := readChoice TraceMode.choices v

namespace TraceEntry

def toJson (e : TraceEntry) : Json :=
  .obj [("state", .nat e.state), ("color", .str e.colour), ("showNumber", .bool e.showNumber)]

def shape : Shape :=
  ⟨"TraceEntry", [
    .required "state" readSize,
    .required "color" readString,
    .required "showNumber" readBool]⟩

def ofJson (v : Json) : Reading TraceEntry := do
  let ms ← shape.members v
  pure {
    state := ← field ms "state" readSize
    colour := ← field ms "color" readString
    showNumber := ← field ms "showNumber" readBool }

end TraceEntry

def Trace.toJson (t : Trace) : Json := .arr (t.map TraceEntry.toJson)

def Trace.ofJson (v : Json) : Reading Trace := readList TraceEntry.ofJson v

end ProofStepper
