import ProofStepper.Debugger.Operation
import ProofStepper.Text.Quoted

/-!
# Verifications and those who ask for them

The verifier can work on one document at a time. A *run* is one verification: it calls
the verifier, takes itself out of the register of running verifications, looks whether
it was asked to stop, and hands its log to the debugger. A *client* asks for a new
verification, or for one to be stopped or waited for. Runs and clients move in sections
between which any other one may move.
-/

namespace ProofStepper.Scheduler

/-- What the verifier returned: a log, or the text of an error. -/
abbrev Outcome := Except String ProofLog

inductive Phase where
  | spawned
  | calling
  | returned (o : Outcome)
  | unregistered (o : Outcome)
  | cleared (log : ProofLog)
  | finished
  | crashed
  | aborted

namespace Phase

/-- The run will not move again. -/
def isOver : Phase → Bool
  | finished | crashed | aborted => true
  | _ => false

/-- The verifier works for the run. -/
def isCalling : Phase → Bool
  | calling => true
  | _ => false

/-- A run that has not got its answer from the verifier yet can be aborted; one that has
got it goes on to its end. -/
def abort : Phase → Phase
  | spawned | calling => aborted
  | p => p

end Phase

/-- A run. Its generation tells it from every other run. -/
structure Verification where
  generation : Nat
  uri : String
  manual : Bool
  phase : Phase := .spawned
  stopAsked : Bool := false

inductive Request where
  | verify (uri : String) (manual : Bool)
  | stop (uri : String)
  | stopAll
  | wait (uri : String)
deriving DecidableEq, Repr, Inhabited

/-- How far the stopping of one run has come: taken out of the register, asked to stop
with so much time to do so, and answered. -/
inductive HaltState where
  | taken
  | asked (timeoutMs : Nat)
  | answered (inTime : Bool)
deriving DecidableEq, Repr, Inhabited

structure Halt where
  generation : Nat
  state : HaltState := .taken
deriving DecidableEq, Repr, Inhabited

/-- What a client is told in the end. -/
inductive Verdict where
  | started
  | refused (f : Failure)
  | told (b : Bool)
deriving DecidableEq, Repr, Inhabited

inductive Stage where
  | arrived
  | waiting
  | holding
  | stopping (halts : List Halt)
  | cleared
  | started
  | numbered (generation : Nat)
  | awaiting (generation : Nat)
  | done (v : Verdict)
deriving DecidableEq, Repr, Inhabited

structure Client where
  request : Request
  stage : Stage
deriving DecidableEq, Repr, Inhabited

def Client.arrived (request : Request) : Client := ⟨request, .arrived⟩

/-- `running` is the register: the generation of the run of each uri. `holder` is the
client that may start a run; it holds that right from before the old runs are stopped
until its own run is registered. -/
structure State where
  debugger : Debugger := {}
  ready : Bool := true
  running : List (String × Nat) := []
  runs : List Verification := []
  nextGeneration : Nat := 0
  clients : List Client := []
  holder : Option Nat := none

namespace State

def run? (s : State) (generation : Nat) : Option Verification :=
  s.runs.find? fun r => r.generation = generation

def isOver (s : State) (generation : Nat) : Bool :=
  (s.run? generation).all fun r => r.phase.isOver

/-- A run of a document is under way. -/
def isRunning (s : State) (uri : String) : Bool :=
  (s.running.lookup uri).any fun g => !s.isOver g

def updateRun (s : State) (generation : Nat) (change : Verification → Verification) : State :=
  { s with runs := s.runs.map fun r => if r.generation = generation then change r else r }

def setPhase (s : State) (generation : Nat) (phase : Phase) : State :=
  s.updateRun generation fun r => { r with phase }

def setStage (s : State) (client : Nat) (stage : Stage) : State :=
  { s with clients := s.clients.modify client fun c => { c with stage } }

/-- Ends a client that holds the right to start. -/
def release (s : State) (client : Nat) (v : Verdict) : State :=
  { s.setStage client (.done v) with holder := none }

/-- Enters a run into the register, in place of another one of its uri. -/
def register (s : State) (uri : String) (generation : Nat) : State :=
  { s with running := s.running.filter (fun e => e.1 ≠ uri) ++ [(uri, generation)] }

end State

end ProofStepper.Scheduler
