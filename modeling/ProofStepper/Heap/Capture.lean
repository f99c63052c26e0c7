import ProofStepper.Failure
import ProofStepper.Graph.Basic
import ProofStepper.Heap.ImageFile
import ProofStepper.Heap.Snapshot

/-!
# Capturing snapshots

How the snapshot of a step comes about. A `Capture` may be any way to get one, and it
may fail; `capture` takes it from the record of the step alone and does not fail.
-/

namespace ProofStepper.Heap

/-- A way to get the snapshot of a step, with its image or without. -/
abbrev Capture := Step → (image : Bool) → Except Failure Snapshot

/-- A titled list with a line for each entry; nothing for an empty list. -/
def listing (title : String) (entries : List String) : String :=
  if entries.isEmpty then ""
  else title ++ ":\n" ++ String.join (entries.map fun e => "\t" ++ e ++ "\n")

/-- The formula, the store and the heap of a record, without blanks at the end. -/
def description (r : Record) : String :=
  let formula := match r.formula with
    | none => ""
    | some f => f ++ "\n"
  Text.trimEnd (formula ++ listing "Store" r.store ++ listing "Heap" r.heap)

def snapshotOf (s : Step) (image : Bool) : Snapshot :=
  { fileName := s.record.fileName
    methodType := s.record.methodType
    methodName := s.record.methodName
    state := s.index
    methodOffset := s.record.methodOffset
    position := s.record.position
    conditions := s.record.pathConditions
    description := description s.record
    image := if image then some (Image.ofChunks s.record.heap) else none }

def capture : Capture := fun s image => .ok (snapshotOf s image)

end ProofStepper.Heap
