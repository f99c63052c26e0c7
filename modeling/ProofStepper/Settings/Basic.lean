import ProofStepper.Json.Shape
import ProofStepper.Trace.Entry

/-!
# Settings

How traces look, where heap images are kept, how long a running verification may take
to stop, and the port of the server.
-/

namespace ProofStepper

structure Settings where
  simpleMode : Bool := true
  darkGraphs : Bool := false
  heapImageDir : String := "/tmp/vdb-heap"
  stopTimeoutMs : Nat := 5000
  rpcPort : Nat := 3000
deriving DecidableEq, Repr, Inhabited

namespace Settings

def traceStyle (s : Settings) : TraceStyle :=
  { mode := if s.simpleMode then .simple else .advanced, dark := s.darkGraphs }

open Json

def toJson (s : Settings) : Json :=
  .obj [
    ("simple_mode", .bool s.simpleMode),
    ("dark_graphs", .bool s.darkGraphs),
    ("heap_image_dir", .str s.heapImageDir),
    ("stop_timeout_ms", .nat s.stopTimeoutMs),
    ("rpc_port", .nat s.rpcPort)]

def shape : Shape :=
  ⟨"DebugConfig", [
    .withDefault "simple_mode" readBool,
    .withDefault "dark_graphs" readBool,
    .withDefault "heap_image_dir" readPath,
    .withDefault "stop_timeout_ms" (readNat word64),
    .withDefault "rpc_port" (readNat word16)]⟩

/-- Settings in which every field that is left out has its value in `base`. -/
def ofJson (base : Settings) (v : Json) : Reading Settings := do
  let ms ← shape.members v
  pure {
    simpleMode := ← fieldOr ms "simple_mode" readBool base.simpleMode
    darkGraphs := ← fieldOr ms "dark_graphs" readBool base.darkGraphs
    heapImageDir := ← fieldOr ms "heap_image_dir" readPath base.heapImageDir
    stopTimeoutMs := ← fieldOr ms "stop_timeout_ms" (readNat word64) base.stopTimeoutMs
    rpcPort := ← fieldOr ms "rpc_port" (readNat word16) base.rpcPort }

end Settings

end ProofStepper
