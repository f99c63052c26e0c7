import ProofStepper.Graph.Repair

/-!
# State graphs

The states of one verification in the order in which they were made, each with its
retained parent, its depth and, if it may be shown, its client number: the number of
shown states before it. Two relations lead backwards and are kept apart: the parent,
from which a state was derived, and the predecessor, which was made just before it.
-/

namespace ProofStepper

structure Step where
  index : Nat
  record : Record
  parent : Option Nat
  depth : Nat
  number : Option Nat
deriving DecidableEq, Repr, Inhabited

def Step.isBranch (s : Step) : Bool := s.record.isBranch

def Step.isShown (s : Step) : Bool := s.record.isShown

def Step.verifiable (s : Step) : Nat := s.record.verifiable

/-- The steps, and for each of them the list of those derived from it. -/
structure StateGraph where
  steps : List Step := []
  childLists : List (List Nat) := []
deriving DecidableEq, Repr, Inhabited

namespace StateGraph

/-- Joins records with their forest; `index` counts the steps made before and `shown`
those of them that may be shown. -/
def assemble (forest : Graph.Forest) (index shown : Nat) : List Record → List Step
  | [] => []
  | record :: rest =>
    { index
      record
      parent := Graph.parentAt forest.parents index
      depth := forest.depths.getD index 0
      number := if record.isShown then some shown else none }
      :: assemble forest (index + 1) (if record.isShown then shown + 1 else shown) rest

/-- Adds a step to the list of its parent. -/
def enlist (lists : List (List Nat)) (s : Step) : List (List Nat) :=
  match s.parent with
  | none => lists
  | some parent => lists.modify parent (· ++ [s.index])

/-- The lists of children, which are empty until the steps are taken in order. -/
def enlistAll (steps : List Step) : List (List Nat) :=
  steps.foldl enlist (steps.map fun _ => [])

def ofRecords (records : List Record) : StateGraph :=
  let steps := assemble (.ofRecorded (records.map (·.parent))) 0 0 records
  ⟨steps, enlistAll steps⟩

/-- What had to be repaired in a list of records. -/
def defects (records : List Record) : List Graph.Defect :=
  (Graph.Forest.ofRecorded (records.map (·.parent))).defects

def size (g : StateGraph) : Nat := g.steps.length

def isEmpty (g : StateGraph) : Bool := g.steps.isEmpty

def step? (g : StateGraph) (index : Nat) : Option Step := g.steps[index]?

def depth? (g : StateGraph) (index : Nat) : Option Nat := (g.step? index).map (·.depth)

def isBranch (g : StateGraph) (index : Nat) : Bool := (g.step? index).any Step.isBranch

def parent? (g : StateGraph) (index : Nat) : Option Step :=
  (g.step? index).bind fun s => s.parent.bind g.step?

def predecessor? (g : StateGraph) : (index : Nat) → Option Step
  | 0 => none
  | index + 1 => g.step? index

/-- The steps derived from a step, in the order in which they were made. -/
def children (g : StateGraph) (index : Nat) : List Nat := g.childLists.getD index []

end StateGraph

end ProofStepper
