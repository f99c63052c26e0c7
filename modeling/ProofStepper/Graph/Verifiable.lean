import ProofStepper.Graph.Basic

/-!
# Verifiables and expansions

A verifiable is a method or function under proof. Every state belongs to one, named by
a number; the states of different verifiables may lie mixed in a log. Its name and kind
are those of its first state. A state without parent stands at the top level of its
verifiable.

The expansion of a state holds what was derived beneath it while the verifier unfolded
it: its descendants within one verifiable, depth first and children in the order in
which they were made. Below a state of another verifiable nothing is looked for.
-/

namespace ProofStepper

structure Verifiable where
  index : Nat
  kind : String
  name : String
  steps : List Nat
  topLevel : List Nat
deriving DecidableEq, Repr, Inhabited

namespace Verifiable

def topLevelOf (s : Step) : List Nat := if s.parent.isNone then [s.index] else []

def ofStep (s : Step) : Verifiable :=
  ⟨s.verifiable, s.record.methodType, s.record.methodName, [s.index], topLevelOf s⟩

def append (v : Verifiable) (s : Step) : Verifiable :=
  { v with steps := v.steps ++ [s.index], topLevel := v.topLevel ++ topLevelOf s }

/-- Adds a step to its verifiable, which is made at its place if it is not there yet. -/
def place (s : Step) : List Verifiable → List Verifiable
  | [] => [ofStep s]
  | v :: rest =>
    if s.verifiable = v.index then v.append s :: rest
    else if s.verifiable < v.index then ofStep s :: v :: rest
    else v :: place s rest

end Verifiable

namespace StateGraph

/-- The verifiables of a graph, by ascending number. -/
def verifiables (g : StateGraph) : List Verifiable :=
  g.steps.foldl (fun vs s => Verifiable.place s vs) []

def verifiableOf? (g : StateGraph) (index : Nat) : Option Verifiable :=
  (g.step? index).bind fun s => g.verifiables.find? fun v => v.index = s.verifiable

/-- Visits the pending steps and what lies below them. A step has one parent, so each
is pending once at most, and as much fuel as there are steps is enough. -/
def explore (g : StateGraph) (verifiable : Nat) : (fuel : Nat) → (pending : List Nat) → List Step
  | 0, _ => []
  | _ + 1, [] => []
  | fuel + 1, index :: pending =>
    match g.step? index with
    | none => explore g verifiable fuel pending
    | some s =>
      if s.verifiable = verifiable then
        s :: explore g verifiable fuel (g.children index ++ pending)
      else explore g verifiable fuel pending

/-- The shown steps of the expansion of `anchor` within a verifiable. -/
def expansion (g : StateGraph) (verifiable anchor : Nat) : List Step :=
  match g.step? anchor with
  | none => []
  | some _ => (explore g verifiable g.size (g.children anchor)).filter Step.isShown

/-- The shown steps at the top level of a verifiable. -/
def shownTopLevel (g : StateGraph) (v : Verifiable) : List Step :=
  (v.topLevel.filterMap g.step?).filter Step.isShown

end StateGraph

end ProofStepper
