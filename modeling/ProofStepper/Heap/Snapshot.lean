import ProofStepper.Log.Codec

/-!
# Heap snapshots

A snapshot shows one state of the symbolic heap: where the state lies, its path
conditions, a free text about it and, if it was asked for, an image of its heap chunks.
-/

namespace ProofStepper

structure Snapshot where
  fileName : String := ""
  methodType : String := ""
  methodName : String := ""
  state : Nat := 0
  methodOffset : Nat := 0
  position : Position := {}
  conditions : List String := []
  description : String := ""
  image : Option String := none
deriving DecidableEq, Repr, Inhabited

namespace Snapshot

/-- The number of the state counted from the first state of its method; zero for a
state that claims to come before it. -/
def relativeState (s : Snapshot) : Nat := s.state - s.methodOffset

open Json

def toJson (s : Snapshot) : Json :=
  .obj ([
    ("fileName", .str s.fileName),
    ("methodType", .str s.methodType),
    ("methodName", .str s.methodName),
    ("state", .nat s.state),
    ("methodOffset", .nat s.methodOffset),
    ("position", s.position.toJson),
    ("conditions", .strings s.conditions),
    ("stateInfos", .str s.description)] ++ optionalMember "heap" (s.image.map .str))

def shape : Shape :=
  ⟨"HeapGraph", [
    .required "fileName" readString,
    .required "methodType" readString,
    .required "methodName" readString,
    .required "state" readSize,
    .required "methodOffset" readSize,
    .required "position" Position.ofJson,
    .required "conditions" (readList readString),
    .required "stateInfos" readString,
    .withDefault "heap" (readOption readString)]⟩

def ofJson (v : Json) : Reading Snapshot := do
  let ms ← shape.members v
  pure {
    fileName := ← field ms "fileName" readString
    methodType := ← field ms "methodType" readString
    methodName := ← field ms "methodName" readString
    state := ← field ms "state" readSize
    methodOffset := ← field ms "methodOffset" readSize
    position := ← field ms "position" Position.ofJson
    conditions := ← field ms "conditions" (readList readString)
    description := ← field ms "stateInfos" readString
    image := ← fieldOr ms "heap" (readOption readString) none }

end Snapshot

end ProofStepper
