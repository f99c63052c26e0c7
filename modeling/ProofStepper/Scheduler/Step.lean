import ProofStepper.Scheduler.Basic

/-!
# The moves of the scheduler

Each event is one section of a run or of a client, or a request to the debugger from
elsewhere. An event that is not possible in a state leads nowhere. What the verifier
returns and when, and when the time for stopping is over, is left open: it is part of
the event.
-/

namespace ProofStepper.Scheduler

inductive Event where
  | arrive (request : Request)
  | consider (client : Nat)
  | acquire (client : Nat)
  | take (client : Nat)
  | signal (client generation : Nat)
  | observe (client generation : Nat)
  | expire (client generation : Nat)
  | conclude (client : Nat)
  | reset (client : Nat)
  | number (client : Nat)
  | spawn (client : Nat)
  | begin (generation : Nat)
  | yield (generation : Nat) (o : Outcome)
  | crash (generation : Nat)
  | unregister (generation : Nat)
  | check (generation : Nat)
  | deliver (generation : Nat)
  | operate (op : Operation)
  | setReady (b : Bool)

/-- The state after an event and what was reported. -/
abbrev Move := State × List Notice

def notReadyNotices (uri : String) (manual : Bool) : List Notice :=
  (if manual then [.warn "The verification backend is not ready yet"] else [])
    ++ [.error "verification refused, backend not ready" [("uri", uri)]]

/-- A new verification is refused at once for a document that is not open, and while the
verifier is not ready; else it waits for its turn. -/
def consider (s : State) (client : Nat) (uri : String) (manual : Bool) : Move :=
  if (s.debugger.task? uri).isNone then
    (s.setStage client (.done (.refused (.unknownDocument uri))), [])
  else if !s.ready then
    (s.setStage client (.done (.refused .backendUnavailable)), notReadyNotices uri manual)
  else (s.setStage client .waiting, [])

def halts (entries : List (String × Nat)) : List Halt := entries.map fun e => { generation := e.2 }

/-- Takes all runs out of the register in order to stop them. -/
def takeAll (s : State) (client : Nat) : State :=
  { s.setStage client (.stopping (halts s.running)) with running := [] }

/-- Takes the run of one document out of the register. -/
def takeUri (s : State) (uri : String) : State × Option Nat :=
  ({ s with running := s.running.filter fun e => e.1 ≠ uri }, s.running.lookup uri)

def setHalt (halts : List Halt) (generation : Nat) (state : HaltState) : List Halt :=
  halts.map fun h => if h.generation = generation then { h with state } else h

def haltState? (halts : List Halt) (generation : Nat) : Option HaltState :=
  (halts.find? fun h => h.generation = generation).map (·.state)

def HaltState.answer? : HaltState → Option Bool
  | .answered b => some b
  | _ => none

/-- Whether all runs stopped in time, once all have been answered for. -/
def conclusion? (halts : List Halt) : Option Bool :=
  if halts.all fun h => h.state.answer?.isSome then
    some (halts.all fun h => h.state == .answered true)
  else none

def lateNotice (uri : String) (timeoutMs : Nat) : Notice :=
  .warn "verification did not stop in time, aborting"
    [("uri", uri), ("stop_timeout", Text.duration timeoutMs)]

/-- Asks a run to stop, unless it is over already. -/
def signal (s : State) (client generation : Nat) (halts : List Halt) : State :=
  if s.isOver generation then
    s.setStage client (.stopping (setHalt halts generation (.answered true)))
  else
    (s.updateRun generation fun r => { r with stopAsked := true }).setStage client
      (.stopping (setHalt halts generation (.asked s.debugger.settings.stopTimeoutMs)))

/-- The time of a run is over: it is aborted. -/
def expire (s : State) (client : Nat) (run : Verification) (halts : List Halt)
    (timeoutMs : Nat) : Move :=
  ((s.updateRun run.generation fun r => { r with phase := r.phase.abort }).setStage client
    (.stopping (setHalt halts run.generation (.answered false))), [lateNotice run.uri timeoutMs])

/-- A run that was waited for is over. -/
def awaited (s : State) (generation : Nat) : Bool :=
  (s.run? generation).any fun r => match r.phase with
    | .finished => true
    | _ => false

/-- Makes the run of a client and registers it. -/
def spawn (s : State) (client : Nat) (uri : String) (manual : Bool) (generation : Nat) : State :=
  let run : Verification := { generation, uri, manual }
  (({ s with runs := s.runs ++ [run] } : State).register uri generation).release client .started

/-- Takes a run out of the register, unless another run stands there for its uri. -/
def unregister (s : State) (run : Verification) (o : Outcome) : State :=
  { s.setPhase run.generation (.unregistered o) with
    running := s.running.filter fun e => e ≠ (run.uri, run.generation) }

/-- Looks whether a run was asked to stop: if so, what it found is dropped. -/
def check (s : State) (run : Verification) (o : Outcome) : Move :=
  if run.stopAsked then (s.setPhase run.generation .finished, [])
  else
    match o with
    | .ok log => (s.setPhase run.generation (.cleared log), [])
    | .error e =>
      (s.setPhase run.generation .finished,
        [.error ("verification failed: " ++ e) [("uri", run.uri)]])

def deliver (s : State) (run : Verification) (log : ProofLog) : Move :=
  let reply := s.debugger.complete run.uri log
  ({ s.setPhase run.generation .finished with debugger := reply.state }, reply.notices)

def stepClient (s : State) (client : Nat) (c : Client) : Event → Option Move
  | .consider _ =>
    match c.stage, c.request with
    | .arrived, .verify uri manual => some (consider s client uri manual)
    | _, _ => none
  | .acquire _ =>
    match c.stage, s.holder with
    | .waiting, none => some ({ s.setStage client .holding with holder := some client }, [])
    | _, _ => none
  | .take _ =>
    match c.stage, c.request with
    | .holding, _ => some (takeAll s client, [])
    | .arrived, .stopAll => some (takeAll s client, [])
    | .arrived, .stop uri =>
      let (s, g) := takeUri s uri
      some (s.setStage client (.stopping (g.toList.map fun g => { generation := g })), [])
    | .arrived, .wait uri =>
      match takeUri s uri with
      | (s, some g) => some (s.setStage client (.awaiting g), [])
      | (s, none) => some (s.setStage client (.done (.told true)), [])
    | _, _ => none
  | .signal _ g =>
    match c.stage with
    | .stopping hs =>
      match haltState? hs g with
      | some .taken => some (signal s client g hs, [])
      | _ => none
    | _ => none
  | .observe _ g =>
    match c.stage with
    | .stopping hs =>
      match haltState? hs g, s.isOver g with
      | some (.asked _), true =>
        some (s.setStage client (.stopping (setHalt hs g (.answered true))), [])
      | _, _ => none
    | .awaiting h =>
      if h = g ∧ s.isOver g then some (s.setStage client (.done (.told (awaited s g))), [])
      else none
    | _ => none
  | .expire _ g =>
    match c.stage, s.run? g with
    | .stopping hs, some run =>
      match haltState? hs g, run.phase.isOver with
      | some (.asked timeoutMs), false => some (expire s client run hs timeoutMs)
      | _, _ => none
    | _, _ => none
  | .conclude _ =>
    match c.stage with
    | .stopping hs =>
      match conclusion? hs, c.request with
      | none, _ => none
      | some true, .verify _ _ => some (s.setStage client .cleared, [])
      | some false, .verify _ _ => some (s.release client (.refused .verificationConflict), [])
      | some b, _ => some (s.setStage client (.done (.told b)), [])
    | _ => none
  | .reset _ =>
    match c.stage, c.request with
    | .cleared, .verify uri _ =>
      let reply := s.debugger.start uri
      match reply.answer with
      | .error e => some (s.release client (.refused e), reply.notices)
      | .ok () => some ({ s.setStage client .started with debugger := reply.state }, reply.notices)
    | _, _ => none
  | .number _ =>
    match c.stage with
    | .started =>
      some ({ s.setStage client (.numbered s.nextGeneration) with
        nextGeneration := s.nextGeneration + 1 }, [])
    | _ => none
  | .spawn _ =>
    match c.stage, c.request with
    | .numbered g, .verify uri manual => some (spawn s client uri manual g, [])
    | _, _ => none
  | _ => none

def stepRun (s : State) (run : Verification) : Event → Option Move
  | .begin g =>
    match run.phase with
    | .spawned => some (s.setPhase g .calling, [])
    | _ => none
  | .yield g o =>
    match run.phase with
    | .calling => some (s.setPhase g (.returned o), [])
    | _ => none
  | .crash g =>
    match run.phase with
    | .calling => some (s.setPhase g .crashed, [])
    | _ => none
  | .unregister _ =>
    match run.phase with
    | .returned o => some (unregister s run o, [])
    | _ => none
  | .check _ =>
    match run.phase with
    | .unregistered o => some (check s run o)
    | _ => none
  | .deliver _ =>
    match run.phase with
    | .cleared log => some (deliver s run log)
    | _ => none
  | _ => none

/-- The client or the run that an event moves. -/
inductive Mover where
  | client (index : Nat)
  | run (generation : Nat)
  | other
deriving DecidableEq, Repr

def Event.mover : Event → Mover
  | .consider c | .acquire c | .take c | .conclude c | .reset c | .number c | .spawn c => .client c
  | .signal c _ | .observe c _ | .expire c _ => .client c
  | .begin g | .yield g _ | .crash g | .unregister g | .check g | .deliver g => .run g
  | .arrive _ | .operate _ | .setReady _ => .other

/-- The move of an event, if it is possible. -/
def step (capture : Heap.Capture) (s : State) (e : Event) : Option Move :=
  match e.mover with
  | .client c => (s.clients[c]?).bind fun client => stepClient s c client e
  | .run g => (s.run? g).bind fun run => stepRun s run e
  | .other =>
    match e with
    | .arrive request => some ({ s with clients := s.clients ++ [.arrived request] }, [])
    | .operate op =>
      let reply := s.debugger.perform capture op
      some ({ s with debugger := reply.state }, reply.notices)
    | .setReady b => some ({ s with ready := b }, [])
    | _ => none

/-- The states that a state can come to. -/
inductive Reaches (capture : Heap.Capture) (start : State) : State → Prop
  | start : Reaches capture start start
  | step {s t : State} {e : Event} {notices : List Notice} :
      Reaches capture start s → step capture s e = some (t, notices) → Reaches capture start t

end ProofStepper.Scheduler
