import ProofStepper.Trace.Explain

/-!
# Verification tasks

What one document keeps of its verification: the last completed run, the trace that was
shown last, and the diagnostics. Each operation is made of sections, and other
operations may come between two sections. Every run gets a stamp of its own when it is
stored, by which a trace that was made from it finds out whether it is still there.
-/

namespace ProofStepper

structure StampedRun where
  stamp : Nat
  run : Run
deriving DecidableEq, Repr, Inhabited

structure Task where
  uri : String
  stored : Option StampedRun := none
  shown : Option Trace := none
  diagnostics : List Diagnostic := []
  completions : Nat := 0
deriving DecidableEq, Repr, Inhabited

namespace Task

def run? (t : Task) : Option Run := t.stored.map (·.run)

def swapRun (t : Task) (records : List Record) : Task :=
  { t with
    stored := some ⟨t.completions, Run.ofRecords records⟩
    completions := t.completions + 1 }

def dropRun (t : Task) : Task := { t with stored := none }

def clearShown (t : Task) : Task := { t with shown := none }

def setDiagnostics (t : Task) (diagnostics : List Diagnostic) : Task := { t with diagnostics }

/-- Keeps a trace if the run from which it was made is still stored. -/
def keepTrace (t : Task) (stamp : Nat) (trace : Trace) : Task :=
  if t.stored.any fun s => s.stamp = stamp then { t with shown := some trace } else t

def complete (t : Task) (log : ProofLog) : Task :=
  ((t.swapRun log.steps).clearShown).setDiagnostics log.diagnostics

def invalidate (t : Task) : Task := t.dropRun.clearShown

def resetDiagnostics (t : Task) : Task := t.setDiagnostics []

/-- The run from which traces are made. -/
def currentRun (t : Task) : Except Failure StampedRun :=
  match t.stored with
  | none => .error (.noCompletedRun t.uri)
  | some s => .ok s

/-- Makes the trace of a client state and keeps it. -/
def trace (t : Task) (number : Nat) (style : TraceStyle) : Reply Task (Except Failure Trace) :=
  match t.currentRun with
  | .error e => ⟨.error e, t, []⟩
  | .ok s =>
    match s.run.trace number style with
    | .error e => ⟨.error e, t, []⟩
    | .ok trace => ⟨.ok trace, t.keepTrace s.stamp trace, s.run.traceNotices number⟩

end Task

end ProofStepper
