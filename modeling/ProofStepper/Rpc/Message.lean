import ProofStepper.Failure
import ProofStepper.Json.Shape

/-!
# Messages of the remote procedure calls

Requests and responses after JSON-RPC 2.0. A response carries the id of its request and
either a result or an error. A result, an error, parameters or data that are null when
they are read count as absent.
-/

namespace ProofStepper.Rpc

open Json

def version : String := "2.0"

inductive Id where
  | number (n : Nat)
  | string (s : String)
deriving DecidableEq, Repr, Inhabited

namespace Id

def toJson : Id → Json
  | number n => .nat n
  | string s => .str s

def ofJson (v : Json) : Reading Id :=
  match readNat word64 v with
  | .ok n => .ok (number n)
  | .error _ =>
    match readString v with
    | .ok s => .ok (string s)
    | .error _ => .error (.noAlternative "RpcId")

end Id

/-- A value that is absent where it is null. -/
def readPresent : Json → Reading (Option Json) := readOption .ok

structure Error where
  code : Int
  message : String
  data : Option Json := none
deriving Repr, Inhabited

namespace Error

def invalidRequestCode : Int := -32600
def methodNotFoundCode : Int := -32601
def invalidParamsCode : Int := -32602
def internalCode : Int := -32603
def backendUnavailableCode : Int := -33001
def verificationConflictCode : Int := -33002
def unknownDocumentCode : Int := -33003

def wrongVersion : Error :=
  { code := invalidRequestCode, message := "Invalid Request - JSON-RPC version must be 2.0" }

def methodNotFound (method : String) : Error :=
  { code := methodNotFoundCode, message := s!"Method '{method}' not found" }

def invalidParams (message : String) : Error := { code := invalidParamsCode, message }

def internal (message : String) : Error := { code := internalCode, message }

def ofFailure (f : Failure) : Error :=
  { code := match f with
      | .backendUnavailable => backendUnavailableCode
      | .verificationConflict => verificationConflictCode
      | .unknownDocument _ => unknownDocumentCode
      | _ => internalCode
    message := f.message }

def toJson (e : Error) : Json :=
  .obj ([("code", .int e.code), ("message", .str e.message)] ++ optionalMember "data" e.data)

def shape : Shape :=
  ⟨"RpcError", [
    .required "code" (readInt signed32),
    .required "message" readString,
    .withDefault "data" readPresent]⟩

def ofJson (v : Json) : Reading Error := do
  let ms ← shape.members v
  pure {
    code := ← field ms "code" (readInt signed32)
    message := ← field ms "message" readString
    data := ← fieldOr ms "data" readPresent none }

end Error

structure Request where
  jsonrpc : String := version
  method : String
  params : Option Json := none
  id : Id
deriving Repr, Inhabited

namespace Request

def toJson (r : Request) : Json :=
  .obj ([("jsonrpc", .str r.jsonrpc), ("method", .str r.method)]
    ++ optionalMember "params" r.params ++ [("id", r.id.toJson)])

def shape : Shape :=
  ⟨"RpcRequest", [
    .required "jsonrpc" readString,
    .required "method" readString,
    .withDefault "params" readPresent,
    .required "id" Id.ofJson]⟩

def ofJson (v : Json) : Reading Request := do
  let ms ← shape.members v
  pure {
    jsonrpc := ← field ms "jsonrpc" readString
    method := ← field ms "method" readString
    params := ← fieldOr ms "params" readPresent none
    id := ← field ms "id" Id.ofJson }

end Request

structure Response where
  jsonrpc : String := version
  result : Option Json := none
  error : Option Error := none
  id : Id
deriving Repr, Inhabited

namespace Response

def success (id : Id) (result : Json) : Response := { result := some result, id }

def failure (id : Id) (error : Error) : Response := { error := some error, id }

def toJson (r : Response) : Json :=
  .obj ([("jsonrpc", .str r.jsonrpc)] ++ optionalMember "result" r.result
    ++ optionalMember "error" (r.error.map Error.toJson) ++ [("id", r.id.toJson)])

def shape : Shape :=
  ⟨"RpcResponse", [
    .required "jsonrpc" readString,
    .withDefault "result" readPresent,
    .withDefault "error" (readOption Error.ofJson),
    .required "id" Id.ofJson]⟩

def ofJson (v : Json) : Reading Response := do
  let ms ← shape.members v
  pure {
    jsonrpc := ← field ms "jsonrpc" readString
    result := ← fieldOr ms "result" readPresent none
    error := ← fieldOr ms "error" (readOption Error.ofJson) none
    id := ← field ms "id" Id.ofJson }

end Response

end ProofStepper.Rpc
