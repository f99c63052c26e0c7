import ProofStepper.Rpc.Message

/-!
# Parameters

What the methods take. A list of exactly one item stands for its item, and absent
parameters for null.
-/

namespace ProofStepper.Rpc

open Json

/-- The value that parameters stand for. -/
def argument : Option Json → Json
  | none => .null
  | some (.arr [v]) => v
  | some v => v

def readParams {α : Type} (read : Json → Reading α) (params : Option Json) : Except Error α :=
  match read (argument params) with
  | .ok a => .ok a
  | .error e => .error (.invalidParams ("Invalid params: " ++ e.message))

/-- A document, named by its uri alone or by an object that has one. -/
def readUri (v : Json) : Reading String :=
  match v with
  | .str uri => .ok uri
  | .obj ms =>
    match Shape.members ⟨"Object", [.required "uri" readString]⟩ (.obj ms) with
    | .ok ms => field ms "uri" readString
    | .error _ => .error (.noAlternative "UriParams")
  | _ => .error (.noAlternative "UriParams")

/-- A state of a document, by its client number. -/
structure TraceParams where
  uri : String
  clientState : Nat
deriving DecidableEq, Repr, Inhabited

namespace TraceParams

def toJson (p : TraceParams) : Json :=
  .obj [("uri", .str p.uri), ("clientState", .nat p.clientState)]

def shape : Shape :=
  ⟨"TraceParams", [.required "uri" readString, .required "clientState" readSize]⟩

def ofJson (v : Json) : Reading TraceParams := do
  let ms ← shape.members v
  pure {
    uri := ← field ms "uri" readString
    clientState := ← field ms "clientState" readSize }

end TraceParams

/-- A state whose heap is to be shown, with an image or without. -/
structure HeapParams where
  uri : String
  clientIndex : Nat
  needsImage : Bool
deriving DecidableEq, Repr, Inhabited

namespace HeapParams

def toJson (p : HeapParams) : Json :=
  .obj [("uri", .str p.uri), ("clientIndex", .nat p.clientIndex),
    ("isHeapNeeded", .bool p.needsImage)]

def shape : Shape :=
  ⟨"ShowHeapParams", [
    .required "uri" readString,
    .required "clientIndex" readSize,
    .required "isHeapNeeded" readBool]⟩

def ofJson (v : Json) : Reading HeapParams := do
  let ms ← shape.members v
  pure {
    uri := ← field ms "uri" readString
    clientIndex := ← field ms "clientIndex" readSize
    needsImage := ← field ms "isHeapNeeded" readBool }

end HeapParams

/-- A document to verify, asked for by hand or not. -/
structure VerifyParams where
  uri : String
  manual : Bool := false
deriving DecidableEq, Repr, Inhabited

namespace VerifyParams

def toJson (p : VerifyParams) : Json :=
  .obj [("uri", .str p.uri), ("manuallyTriggered", .bool p.manual)]

def shape : Shape :=
  ⟨"VerifyParams", [
    .required "uri" readString,
    .withDefault "manuallyTriggered" readBool]⟩

def ofJson (v : Json) : Reading VerifyParams := do
  let ms ← shape.members v
  pure {
    uri := ← field ms "uri" readString
    manual := ← fieldOr ms "manuallyTriggered" readBool false }

end VerifyParams

end ProofStepper.Rpc
