import ProofStepper.Graph.Verifiable
import ProofStepper.Run
import ProofStepper.Trace.Entry

/-!
# Explaining a state

From a branch state the walk goes back to the parent, past the other branches; from any
other state that has a parent it goes to the state made just before. It ends where
there is no next state, and it is blocked where the next state does not come earlier.
Of the states on the walk those count that may be shown and are no deeper than every
counted state before them.

A simple trace shows the walk back from a state in the accent colour. An advanced one
puts before it, in the muted colour, the expansion of the state and the top level of
its verifiable.
-/

namespace ProofStepper

/-- The steps of a walk and, if it was blocked, the two steps between which it was. -/
structure Walk where
  steps : List Step
  blocked : Option (Nat × Nat)
deriving DecidableEq, Repr

namespace StateGraph

/-- The next step of a walk. -/
def back? (g : StateGraph) (s : Step) : Option Step :=
  if s.isBranch then g.parent? s.index
  else if s.parent.isNone then none
  else g.predecessor? s.index

def walk (g : StateGraph) (s : Step) : Walk :=
  match g.back? s with
  | none => ⟨[s], none⟩
  | some t =>
    if t.index < s.index then
      let rest := walk g t
      ⟨s :: rest.steps, rest.blocked⟩
    else ⟨[s], some (s.index, t.index)⟩
termination_by s.index

end StateGraph

/-- The shown steps that are no deeper than `bound`, each of which lowers it to its own
depth for those after it. -/
def withinBound (bound : Nat) : List Step → List Step
  | [] => []
  | s :: rest =>
    if s.isShown ∧ s.depth ≤ bound then s :: withinBound s.depth rest
    else withinBound bound rest

def blockedNotice (here there : Nat) : Notice :=
  .warn (s!"malformed state graph: trace walk from step {here} to {there} "
    ++ "does not move backwards, stopping")

def Walk.notices (w : Walk) : List Notice :=
  match w.blocked with
  | none => []
  | some (here, there) => [blockedNotice here there]

def entries (colour : String) (steps : List Step) : Trace :=
  (steps.filterMap (·.number)).map fun n => { state := n, colour }

namespace Run

/-- The steps that the walk back from a step reports. -/
def reported (r : Run) (target : Step) : List Step :=
  withinBound target.depth (r.graph.walk target).steps

/-- The steps around a step that an advanced trace adds. -/
def surroundings (r : Run) (target : Step) : List Step :=
  match r.graph.verifiableOf? target.index with
  | none => []
  | some v => r.graph.expansion v.index target.index ++ r.graph.shownTopLevel v

def traceOf (r : Run) (target : Step) (style : TraceStyle) : Trace :=
  let path := entries (Colour.accent style.dark) (r.reported target)
  match style.mode with
  | .simple => path
  | .advanced => entries (Colour.muted style.dark) (r.surroundings target) ++ path

/-- The trace of the state that the client knows by a number. -/
def trace (r : Run) (number : Nat) (style : TraceStyle) : Except Failure Trace :=
  (r.step number).map fun target => r.traceOf target style

/-- What is reported while a trace is made. -/
def traceNotices (r : Run) (number : Nat) : List Notice :=
  match r.step number with
  | .ok target => (r.graph.walk target).notices
  | .error _ => []

end Run

end ProofStepper
