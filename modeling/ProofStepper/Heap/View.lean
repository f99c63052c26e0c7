import ProofStepper.Heap.Snapshot
import ProofStepper.Trace.Entry

/-!
# Views of snapshots

A panel shows one snapshot. Where it stands beside another one, each of its conditions
that does not occur in the other, letter for letter, is marked as new. A view holds the
panels of the snapshots that are there: none, one, or the newer and the older one.
-/

namespace ProofStepper.Heap

inductive Label where
  | only
  | newer
  | older
deriving DecidableEq, Repr, Inhabited

namespace Label

def title : Label → String
  | only => "Current"
  | newer => "Current State"
  | older => "Previous State"

def colour : Label → String
  | only | newer => Colour.current
  | older => Colour.previous

/-- The name of a label on the wire. -/
def name : Label → String
  | only => "Current"
  | newer => "CurrentState"
  | older => "PreviousState"

end Label

structure Condition where
  text : String
  isNew : Bool
deriving DecidableEq, Repr, Inhabited

structure Panel where
  label : Label
  slot : Nat
  fileName : String
  methodType : String
  methodName : String
  state : Nat
  position : Position
  conditions : List Condition
  description : String
deriving DecidableEq, Repr, Inhabited

namespace Panel

/-- The panel of a snapshot, beside another one or alone. -/
def ofSnapshot (label : Label) (slot : Nat) (s : Snapshot) (other : Option Snapshot) : Panel :=
  { label
    slot
    fileName := s.fileName
    methodType := s.methodType
    methodName := s.methodName
    state := s.relativeState
    position := s.position
    conditions := s.conditions.map fun text =>
      ⟨text, other.any fun o => !o.conditions.contains text⟩
    description := s.description }

def newConditions (p : Panel) : List String := (p.conditions.filter (·.isNew)).map (·.text)

end Panel

inductive View where
  | empty
  | single (panel : Panel)
  | comparison (newer older : Panel)
deriving DecidableEq, Repr, Inhabited

namespace View

/-- The panels in the order in which they are shown. -/
def panels : View → List Panel
  | empty => []
  | single p => [p]
  | comparison newer older => [newer, older]

def isEmpty (v : View) : Bool := v.panels.isEmpty

end View

open Json

def Condition.toJson (c : Condition) : Json :=
  .obj [("text", .str c.text), ("is_new", .bool c.isNew)]

def Panel.toJson (p : Panel) : Json :=
  .obj [
    ("label", .str p.label.name),
    ("slot", .nat p.slot),
    ("file_name", .str p.fileName),
    ("method_type", .str p.methodType),
    ("method_name", .str p.methodName),
    ("state", .nat p.state),
    ("position", p.position.toJson),
    ("conditions", .arr (p.conditions.map Condition.toJson)),
    ("state_infos", .str p.description)]

def View.toJson : View → Json
  | .empty => .str "Empty"
  | .single p => .obj [("Single", p.toJson)]
  | .comparison newer older =>
    .obj [("Comparison", .obj [("current", newer.toJson), ("previous", older.toJson)])]

end ProofStepper.Heap
