import ProofStepper.Log.File
import ProofStepper.Scheduler.Basic

/-!
# Verifiers

Two verifiers whose behaviour is known beforehand. One works after a plan for each
document; the other hands out the proof log that was recorded for a document.
-/

namespace ProofStepper.Scheduler

/-- How a call for a document goes: after a delay it crashes, fails, or returns a log,
and before that it may stop when it is asked to. -/
structure Plan where
  log : ProofLog := {}
  failure : Option String := none
  crashes : Bool := false
  delayMs : Nat := 0
  ignoresStop : Bool := false

inductive Verifier where
  | planned (plans : List (String × Plan))
  | recorded

/-- How a call that has begun goes on. -/
inductive Work where
  | plan (p : Plan)
  | reading

/-- The end of a call. -/
inductive Ending where
  | outcome (o : Outcome)
  | crash

namespace Verifier

def work : Verifier → String → Work
  | planned plans, uri => .plan ((plans.lookup uri).getD {})
  | recorded, _ => .reading

/-- The verifier with another plan for a document. -/
def replan (v : Verifier) (uri : String) (plan : Plan) : Verifier :=
  match v with
  | planned plans => .planned ((uri, plan) :: plans)
  | recorded => .recorded

end Verifier

namespace Work

def delayMs : Work → Nat
  | plan p => p.delayMs
  | reading => 0

/-- How a call ends, if it does now. -/
def ending? (w : Work) (disk : Disk) (uri : String) (stopAsked due : Bool) : Option Ending :=
  match w with
  | plan p =>
    if stopAsked && !p.ignoresStop then some (.outcome (.error "stopped"))
    else if !due then none
    else if p.crashes then some .crash
    else
      match p.failure with
      | some e => some (.outcome (.error e))
      | none => some (.outcome (.ok p.log))
  | reading =>
    if stopAsked then some (.outcome (.error s!"verification of {uri} stopped"))
    else
      match ProofLog.recorded disk uri with
      | .ok log => some (.outcome (.ok log))
      | .error e => some (.outcome (.error e.message))

end Work

end ProofStepper.Scheduler
