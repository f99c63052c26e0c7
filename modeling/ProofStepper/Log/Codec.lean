import ProofStepper.Json.Printer
import ProofStepper.Json.Reader
import ProofStepper.Json.Shape
import ProofStepper.Log.Record

/-!
# The JSON form of proof logs

Records are written in full. A record may be read with any of its fields left out. A
log is read from an array of records, or from an object of records and diagnostics;
the array is tried first.
-/

namespace ProofStepper

open Json

def Position.toJson (p : Position) : Json :=
  .obj [("line", .nat p.line), ("character", .nat p.character)]

def Position.shape : Shape :=
  ⟨"Position", [.required "line" (readNat word32), .required "character" (readNat word32)]⟩

def Position.ofJson (v : Json) : Reading Position := do
  let ms ← Position.shape.members v
  pure {
    line := ← field ms "line" (readNat word32)
    character := ← field ms "character" (readNat word32) }

namespace Record

def toJson (r : Record) : Json :=
  .obj [
    ("parent", .ofOption .nat r.parent),
    ("isBranch", .bool r.isBranch),
    ("canBeShownAsDecoration", .bool r.isShown),
    ("verifiable", .nat r.verifiable),
    ("fileName", .str r.fileName),
    ("methodName", .str r.methodName),
    ("methodType", .str r.methodType),
    ("methodOffset", .nat r.methodOffset),
    ("position", r.position.toJson),
    ("formula", .ofOption .str r.formula),
    ("pathConditions", .strings r.pathConditions),
    ("store", .strings r.store),
    ("heap", .strings r.heap)]

def shape : Shape :=
  ⟨"StepRecord", [
    .withDefault "parent" (readOption readSize),
    .withDefault "isBranch" readBool,
    .withDefault "canBeShownAsDecoration" readBool,
    .withDefault "verifiable" readSize,
    .withDefault "fileName" readString,
    .withDefault "methodName" readString,
    .withDefault "methodType" readString,
    .withDefault "methodOffset" readSize,
    .withDefault "position" Position.ofJson,
    .withDefault "formula" (readOption readString),
    .withDefault "pathConditions" (readList readString),
    .withDefault "store" (readList readString),
    .withDefault "heap" (readList readString)]⟩

def ofJson (v : Json) : Reading Record := do
  let ms ← shape.members v
  pure {
    parent := ← fieldOr ms "parent" (readOption readSize) none
    isBranch := ← fieldOr ms "isBranch" readBool false
    isShown := ← fieldOr ms "canBeShownAsDecoration" readBool false
    verifiable := ← fieldOr ms "verifiable" readSize 0
    fileName := ← fieldOr ms "fileName" readString ""
    methodName := ← fieldOr ms "methodName" readString ""
    methodType := ← fieldOr ms "methodType" readString ""
    methodOffset := ← fieldOr ms "methodOffset" readSize 0
    position := ← fieldOr ms "position" Position.ofJson {}
    formula := ← fieldOr ms "formula" (readOption readString) none
    pathConditions := ← fieldOr ms "pathConditions" (readList readString) []
    store := ← fieldOr ms "store" (readList readString) []
    heap := ← fieldOr ms "heap" (readList readString) [] }

end Record

namespace Diagnostic

def toJson (d : Diagnostic) : Json :=
  .obj [("position", d.position.toJson), ("message", .str d.message)]

def shape : Shape :=
  ⟨"Diagnostic", [.required "position" Position.ofJson, .required "message" readString]⟩

def ofJson (v : Json) : Reading Diagnostic := do
  let ms ← shape.members v
  pure {
    position := ← field ms "position" Position.ofJson
    message := ← field ms "message" readString }

end Diagnostic

namespace ProofLog

def stepsJson (steps : List Record) : Json := .arr (steps.map Record.toJson)

def toJson (log : ProofLog) : Json :=
  .obj [
    ("steps", stepsJson log.steps),
    ("diagnostics", .arr (log.diagnostics.map Diagnostic.toJson))]

def shape : Shape :=
  ⟨"ProofLog", [
    .required "steps" (readList Record.ofJson),
    .withDefault "diagnostics" (readList Diagnostic.ofJson)]⟩

def ofJson (v : Json) : Reading ProofLog := do
  let ms ← shape.members v
  pure {
    steps := ← field ms "steps" (readList Record.ofJson)
    diagnostics := ← fieldOr ms "diagnostics" (readList Diagnostic.ofJson) [] }

/-- A log in either form, the bare list of records first. -/
def ofEitherForm (v : Json) : Reading ProofLog :=
  match readList Record.ofJson v with
  | .ok steps => .ok { steps }
  | .error _ =>
    match ofJson v with
    | .ok log => .ok log
    | .error _ => .error (.noAlternative "Repr")

/-- Why a text is no proof log. -/
inductive TextFault where
  | text (fault : Fault)
  | content (mismatch : Mismatch)

/-- A text is read up to the end of its value; the value has to fit, and only then is
it looked at what follows it. -/
def ofText (text : String) : Except TextFault ProofLog :=
  match value nestingLimit text.toList with
  | .error e => .error (.text e)
  | .ok (v, rest) =>
    match ofEitherForm v with
    | .error e => .error (.content e)
    | .ok log => if atEnd rest then .ok log else .error (.text .malformed)

end ProofLog

end ProofStepper
