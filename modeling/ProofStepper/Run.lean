import ProofStepper.Failure
import ProofStepper.Graph.Verifiable

/-!
# Completed runs

What a verification leaves behind: its state graph and the numbering under which the
client knows the states that it may show.
-/

namespace ProofStepper

structure Run where
  graph : StateGraph := {}
  shown : List Nat := []
deriving DecidableEq, Repr, Inhabited

namespace Run

/-- The indices of the steps that a client may show, in order. -/
def shownSteps (g : StateGraph) : List Nat := (g.steps.filter Step.isShown).map (·.index)

def ofRecords (records : List Record) : Run :=
  let graph := StateGraph.ofRecords records
  ⟨graph, shownSteps graph⟩

/-- What is reported while the run of a list of records is built. -/
def notices (records : List Record) : List Notice :=
  (StateGraph.defects records).map Graph.Defect.notice

/-- The index of the step that a client knows by a number. -/
def stepIndex? (r : Run) (number : Nat) : Option Nat := r.shown[number]?

/-- The step that a client knows by a number. -/
def step (r : Run) (number : Nat) : Except Failure Step :=
  match (r.stepIndex? number).bind r.graph.step? with
  | some s => .ok s
  | none => .error (.unknownClientState number r.shown.length)

/-- The counts of a run in one line. -/
def summary (r : Run) : String :=
  s!"{r.graph.size} states in {r.graph.verifiables.length} verifiables, {r.shown.length} shown"

end Run

end ProofStepper
