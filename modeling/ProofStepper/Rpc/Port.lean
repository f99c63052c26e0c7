/-!
# Presence of the server

The name and the version under which the program presents itself, and the port on which
it can be reached. The server takes the port that it is set to if that is free, and else
the next free one above it. The highest port of all is never searched.
-/

namespace ProofStepper.Release

def name : String := "vdb"

def version : String := "0.0.2"

end ProofStepper.Release

namespace ProofStepper.Rpc

def highestPort : Nat := 65535

/-- The search range that has no free port. -/
structure NoPort where
  start : Nat
deriving DecidableEq, Repr

def NoPort.message (e : NoPort) : String :=
  s!"No available port found in range {e.start}-{highestPort - 1}"

/-- The first free port from `start` on. -/
def findPort (free : Nat → Bool) (start : Nat) : Except NoPort Nat :=
  match ((List.range highestPort).drop start).find? free with
  | some port => .ok port
  | none => .error ⟨start⟩

def resolvePort (free : Nat → Bool) (preferred : Nat) : Except NoPort Nat :=
  if free preferred then .ok preferred else findPort free (min (preferred + 1) highestPort)

end ProofStepper.Rpc
