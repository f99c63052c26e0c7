import ProofStepper.Scheduler.Step
import ProofStepper.Scheduler.Verifier

/-!
# Timelines

A timeline plays the scheduler on a clock of its own, against a verifier whose behaviour
is known. Clients move before runs, each in the order in which they came, and the clock
moves only when nobody else can.
-/

namespace ProofStepper.Scheduler

/-- A call of the verifier that is under way. -/
structure Call where
  generation : Nat
  work : Work
  due : Nat

/-- The time by which a run has to stop for a client. -/
structure Deadline where
  client : Nat
  generation : Nat
  time : Nat
deriving DecidableEq, Repr, Inhabited

structure Timeline where
  state : State := {}
  verifier : Verifier := .planned []
  now : Nat := 0
  calls : List Call := []
  deadlines : List Deadline := []
  begun : List (String × Bool) := []
  mostActive : Nat := 0

namespace Timeline

/-- The number of calls that are under way. -/
def active (t : Timeline) : Nat := (t.state.runs.filter fun r => r.phase.isCalling).length

def deadlinePassed (t : Timeline) (client generation : Nat) : Bool :=
  t.deadlines.any fun d => d.client = client ∧ d.generation = generation ∧ d.time ≤ t.now

/-- The next event for a run that a client stops. -/
def haltEvent? (t : Timeline) (client : Nat) (h : Halt) : Option Event :=
  match h.state with
  | .taken => some (.signal client h.generation)
  | .asked _ =>
    if t.state.isOver h.generation then some (.observe client h.generation)
    else if t.deadlinePassed client h.generation then some (.expire client h.generation)
    else none
  | .answered _ => none

def clientEvent? (t : Timeline) (index : Nat) (c : Client) : Option Event :=
  match c.stage, c.request with
  | .arrived, .verify _ _ => some (.consider index)
  | .arrived, _ => some (.take index)
  | .waiting, _ => if t.state.holder.isNone then some (.acquire index) else none
  | .holding, _ => some (.take index)
  | .stopping hs, _ =>
    if (conclusion? hs).isSome then some (.conclude index) else hs.findSome? (t.haltEvent? index)
  | .cleared, _ => some (.reset index)
  | .started, _ => some (.number index)
  | .numbered _, _ => some (.spawn index)
  | .awaiting g, _ => if t.state.isOver g then some (.observe index g) else none
  | .done _, _ => none

def callEvent? (t : Timeline) (run : Verification) (call : Call) : Option Event :=
  (call.work.ending? t.state.debugger.disk run.uri run.stopAsked (call.due ≤ t.now)).map fun
    | .outcome o => .yield run.generation o
    | .crash => .crash run.generation

def runEvent? (t : Timeline) (run : Verification) : Option Event :=
  match run.phase with
  | .spawned => some (.begin run.generation)
  | .calling =>
    (t.calls.find? fun c => c.generation = run.generation).bind (t.callEvent? run)
  | .returned _ => some (.unregister run.generation)
  | .unregistered _ => some (.check run.generation)
  | .cleared _ => some (.deliver run.generation)
  | .finished | .crashed | .aborted => none

def firstClientEvent? (t : Timeline) : (index : Nat) → List Client → Option Event
  | _, [] => none
  | index, c :: rest =>
    match t.clientEvent? index c with
    | some e => some e
    | none => firstClientEvent? t (index + 1) rest

def nextEvent? (t : Timeline) : Option Event :=
  match t.firstClientEvent? 0 t.state.clients with
  | some e => some e
  | none => t.state.runs.findSome? t.runEvent?

/-- Keeps account of the calls and of the time for stopping. -/
def record (t : Timeline) (e : Event) : Timeline :=
  match e with
  | .begin g =>
    match t.state.run? g with
    | none => t
    | some run =>
      let work := t.verifier.work run.uri
      { t with
        calls := t.calls ++ [⟨g, work, t.now + work.delayMs⟩]
        begun := t.begun ++ [(run.uri, run.manual)]
        mostActive := max t.mostActive t.active }
  | .signal c g =>
    { t with
      deadlines := t.deadlines ++ [⟨c, g, t.now + t.state.debugger.settings.stopTimeoutMs⟩] }
  | _ => t

/-- The timeline after an event; an event that is not possible changes nothing. -/
def move (capture : Heap.Capture) (t : Timeline) (e : Event) : Timeline × List Notice :=
  match step capture t.state e with
  | none => (t, [])
  | some (state, notices) => ({ t with state }.record e, notices)

/-- The times that somebody waits for. -/
def alarms (t : Timeline) : List Nat :=
  let calls := t.calls.filter fun c => (t.state.run? c.generation).any fun r => r.phase.isCalling
  let halts := t.deadlines.filter fun d => !t.state.isOver d.generation
  (calls.map (·.due) ++ halts.map (·.time)).filter fun time => t.now < time

def earliest : List Nat → Option Nat
  | [] => none
  | time :: rest =>
    match earliest rest with
    | none => some time
    | some other => some (min time other)

/-- Moves the clock to the next time that somebody waits for, up to a limit. -/
def nextTime (t : Timeline) (limit : Option Nat) : Option Nat :=
  match earliest t.alarms, limit with
  | some time, some last => some (min time last)
  | some time, none => some time
  | none, limit => limit

def clientsDone (t : Timeline) : Bool :=
  t.state.clients.all fun c => match c.stage with
    | .done _ => true
    | _ => false

/-- Plays until the clock reaches a limit and nobody can move. Without a limit, plays
until all clients are done. -/
def play (capture : Heap.Capture) (limit : Option Nat) :
    (fuel : Nat) → Timeline → Timeline × List Notice
  | 0, t => (t, [])
  | fuel + 1, t =>
    if limit.isNone && t.clientsDone then (t, [])
    else
      match t.nextEvent? with
      | some e =>
        let (t, notices) := t.move capture e
        let (t, later) := play capture limit fuel t
        (t, notices ++ later)
      | none =>
        match t.nextTime limit with
        | none => (t, [])
        | some time =>
          if time ≤ t.now then (t, []) else play capture limit fuel { t with now := time }

/-- Enough for all clients and runs to come to their end. -/
def fuel (t : Timeline) : Nat := 32 * (t.state.clients.length + t.state.runs.length + 2)

/-- Plays for a number of milliseconds. -/
def pass (capture : Heap.Capture) (t : Timeline) (ms : Nat) : Timeline × List Notice :=
  t.play capture (some (t.now + ms)) t.fuel

def verdictOf (c : Client) : Verdict :=
  match c.stage with
  | .done v => v
  | _ => .refused .verificationConflict

/-- Serves requests that come at once, in their order. -/
def serveAll (capture : Heap.Capture) (t : Timeline) (requests : List Request) :
    Reply Timeline (List Verdict) :=
  let known := t.state.clients.length
  let clients := t.state.clients ++ requests.map Client.arrived
  let t := { t with state := { t.state with clients } }
  let (t, notices) := t.play capture none t.fuel
  ⟨(t.state.clients.drop known).map verdictOf, t, notices⟩

/-- Serves one request. -/
def serve (capture : Heap.Capture) (t : Timeline) (request : Request) : Reply Timeline Verdict :=
  let reply := t.serveAll capture [request]
  ⟨reply.answer.headD (.refused .verificationConflict), reply.state, reply.notices⟩

/-- Performs a request to the debugger. -/
def operate (capture : Heap.Capture) (t : Timeline) (op : Operation) : Reply Timeline Answer :=
  let reply := t.state.debugger.perform capture op
  ⟨reply.answer, { t with state := { t.state with debugger := reply.state } }, reply.notices⟩

end Timeline

end ProofStepper.Scheduler
