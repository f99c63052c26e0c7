import ProofStepper.Text.Quoted

/-!
# Failures and notices

The causes for which a trace, heap or verification request is not served, and their
texts. A *lookup failure* is one that names something that is not there. Notices are what
the debugger reports on the side while it answers: warnings and errors with a text and
named details, in the order in which they arise.
-/

namespace ProofStepper

inductive Failure where
  | unknownDocument (uri : String)
  | noCompletedRun (uri : String)
  | unknownClientState (index total : Nat)
  | invalidHeapSlot (slot : Nat)
  | malformedGraph (reason : String)
  | heapComputation (reason : String)
  | heapImage (path : String) (reason : String)
  | verificationConflict
  | backendUnavailable
deriving DecidableEq, Repr, Inhabited

namespace Failure

def message : Failure → String
  | unknownDocument uri => s!"no verification task found for {uri}"
  | noCompletedRun uri => s!"no completed verification for {uri}"
  | unknownClientState index total => s!"client state {index} not found (run has {total} states)"
  | invalidHeapSlot slot => s!"invalid heap slot {slot}"
  | malformedGraph reason => s!"malformed state graph: {reason}"
  | heapComputation reason => s!"failed to compute heap: {reason}"
  | heapImage path reason => "failed to write heap image " ++ Text.quotePath path ++ ": " ++ reason
  | verificationConflict => "could not stop the running verifications"
  | backendUnavailable => "the verification backend is not ready yet"

def isLookup : Failure → Bool
  | unknownDocument _ | noCompletedRun _ | unknownClientState _ _ | invalidHeapSlot _ => true
  | _ => false

end Failure

inductive Level where
  | warn
  | error
deriving DecidableEq, Repr, Inhabited

structure Notice where
  level : Level
  message : String
  details : List (String × String) := []
deriving DecidableEq, Repr, Inhabited

def Level.label : Level → String
  | .warn => "WARN"
  | .error => "ERROR"

namespace Notice

def warn (message : String) (details : List (String × String) := []) : Notice :=
  ⟨.warn, message, details⟩

def error (message : String) (details : List (String × String) := []) : Notice :=
  ⟨.error, message, details⟩

end Notice

/-- An answer, the notices given on the way and the state afterwards. -/
structure Reply (σ α : Type) where
  answer : α
  state : σ
  notices : List Notice := []

end ProofStepper
