import ProofStepper.Failure
import ProofStepper.Log.Record

/-!
# Repairing recorded parents

A log may name parents outside of itself, and its parents may form cycles. The repair
keeps every parent that it can: a parent outside of the log is dropped, and of every
cycle one step loses its parent and becomes a root. The steps are taken in order, and
from each one the parents are followed until a root, a step of known depth or the own
path is met; in the last case the step at which the path closed is cut. The depth of a
step is the number of moves from it to its root.
-/

namespace ProofStepper.Graph

/-- The parent that a list of parents has for a step. -/
def parentAt (parents : List (Option Nat)) (step : Nat) : Option Nat := parents[step]?.join

def inside (size : Nat) (parent : Option Nat) : Option Nat :=
  parent.filter fun p => p < size

/-- A reason for which a recorded parent is not retained. -/
inductive Defect where
  | outside (step parent : Nat)
  | cycle (entry : Nat)
deriving DecidableEq, Repr, Inhabited

/-- The steps whose parent lies outside of the log, in order. -/
def outsiders (size : Nat) : (step : Nat) → List (Option Nat) → List Defect
  | _, [] => []
  | step, some parent :: rest =>
    if parent < size then outsiders size (step + 1) rest
    else .outside step parent :: outsiders size (step + 1) rest
  | step, none :: rest => outsiders size (step + 1) rest

/-- Where a climb stopped. `chain` holds the steps that still lack a depth, the last
one met first; `base` is the depth of the step above them, if there is one. -/
structure Climb where
  chain : List Nat
  base : Option Nat
  cut : Option Nat
deriving DecidableEq, Repr

/-- Follows parents from `step`, after the steps of `chain`. A step met twice is cut:
what was met after it is left for a later climb. With more fuel than there are steps
the climb stops before the fuel does, because the chain never repeats a step. -/
def climb (parents depths : List (Option Nat)) :
    (fuel : Nat) → (chain : List Nat) → (step : Nat) → Climb
  | 0, chain, _ => ⟨chain, none, none⟩
  | fuel + 1, chain, step =>
    match depths[step]?.join with
    | some depth => ⟨chain, some depth, none⟩
    | none =>
      if step ∈ chain then ⟨chain.dropWhile (· ≠ step), none, some step⟩
      else
        match parentAt parents step with
        | some parent => climb parents depths fuel (step :: chain) parent
        | none => ⟨step :: chain, none, none⟩

/-- Gives ascending depths to the steps of a chain. -/
def settle (depth : Nat) (depths : List (Option Nat)) : List Nat → List (Option Nat)
  | [] => depths
  | step :: rest => settle (depth + 1) (depths.set step (some depth)) rest

/-- What is known while the steps are taken in order. -/
structure Survey where
  parents : List (Option Nat)
  depths : List (Option Nat)
  cuts : List Nat
deriving DecidableEq, Repr

namespace Survey

def start (parents : List (Option Nat)) : Survey :=
  ⟨parents, parents.map fun _ => none, []⟩

/-- Finds the depth of a step, and with it that of the steps above. -/
def visit (s : Survey) (step : Nat) : Survey :=
  let found := climb s.parents s.depths (s.parents.length + 1) [] step
  let first := match found.base with
    | some depth => depth + 1
    | none => 0
  match found.cut with
  | some entry =>
    ⟨s.parents.set entry none, settle first s.depths found.chain, s.cuts ++ [entry]⟩
  | none => ⟨s.parents, settle first s.depths found.chain, s.cuts⟩

def complete (s : Survey) : Survey := (List.range s.parents.length).foldl visit s

end Survey

structure Forest where
  parents : List (Option Nat)
  depths : List Nat
  defects : List Defect
deriving DecidableEq, Repr

/-- The forest of a list of recorded parents. -/
def Forest.ofRecorded (recorded : List (Option Nat)) : Forest :=
  let survey := (Survey.start (recorded.map (inside recorded.length))).complete
  { parents := survey.parents
    depths := survey.depths.map fun depth => depth.getD 0
    defects := outsiders recorded.length 0 recorded ++ survey.cuts.map .cycle }

def Defect.notice : Defect → Notice
  | .outside step parent =>
    .warn "dropping parent outside of the proof log"
      [("step", toString step), ("parent", toString parent)]
  | .cycle entry =>
    .warn s!"malformed state graph: parent cycle through step {entry}, treating step as a root"

end ProofStepper.Graph
