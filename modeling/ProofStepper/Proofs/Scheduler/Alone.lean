import Mathlib.Data.List.Induction
import ProofStepper.Proofs.Scheduler.Closing

/-!
# Requests that are served alone

While a request for a new verification is served and nothing else is asked for, only its
own client and the runs move. A run looks at no client, so what runs do they also do without
the request, and all that the debugger gets to know by them are the logs that they hand over.
-/
namespace ProofStepper

/-- An update keeps every document, be it of this uri or of another one. -/
theorem Debugger.task?_isSome_updateUri (d : Debugger) (uri other : String)
    (change : Document → Document) :
    ((d.updateUri uri change).task? other).isSome = (d.task? other).isSome := by
  unfold updateUri
  split
  · rfl
  · rename_i place _
    have hplace : (d.update place change).place? other = d.place? other := rfl
    simp only [task?, document?, hplace, getElem?_update]
    cases d.place? other with
    | none => rfl
    | some own =>
      simp only [Option.bind_some]
      split
      · simp
      · rfl

namespace Scheduler

/-- The event is a section of a run. -/
def Event.isRun (e : Event) : Bool :=
  match e.mover with
  | .run _ => true
  | _ => false

/-- The event is a section of one client or of some run. -/
def Event.Serves (client : Nat) (e : Event) : Prop := e.mover = .client client ∨ e.isRun = true

theorem Event.Serves.ne_other {i : Nat} {e : Event} (h : e.Serves i) : e.mover ≠ .other := by
  intro he
  rcases h with hclient | hrun
  · rw [he] at hclient
    cases hclient
  · rw [Event.isRun, he] at hrun
    cases hrun

theorem Event.isRun_eq_false {i : Nat} {e : Event} (h : e.mover = .client i) :
    e.isRun = false := by
  rw [Event.isRun, h]

section Play
variable {capture : Heap.Capture} {s t u : State} {e : Event} {events : List Event}

theorem play_append (capture : Heap.Capture) (s : State) (events later : List Event) :
    play capture s (events ++ later) =
      (play capture s events).bind fun t => play capture t later := by
  induction events generalizing s with
  | nil => rfl
  | cons e rest ih =>
    simp only [List.cons_append, play, Option.bind_assoc]
    exact congrArg _ (funext fun move => ih move.1)

theorem play_concat_eq_some_iff : play capture s (events ++ [e]) = some u ↔
    ∃ t notices, play capture s events = some t ∧ step capture t e = some (u, notices) := by
  rw [play_append, Option.bind_eq_some_iff]
  refine exists_congr fun t => ?_
  rw [exists_and_left]
  refine and_congr_right fun _ => ⟨fun h => ?_, fun ⟨notices, hstep⟩ => ?_⟩
  · obtain ⟨⟨u', notices⟩, hstep, hlast⟩ := Option.bind_eq_some_iff.mp h
    cases hlast
    exact ⟨notices, hstep⟩
  · simp only [play, hstep, Option.bind_some]

end Play

namespace State
variable {capture : Heap.Capture} {s t u : State} {e : Event} {events : List Event} {g : Nat}

/-- What a section of a run leaves as it was, besides the documents. -/
structure ByRun (s t : State) : Prop where
  clients : t.clients = s.clients
  holder : t.holder = s.holder
  running : t.running.Sublist s.running
  asked : ∀ g, (t.run? g).map (·.stopAsked) = (s.run? g).map (·.stopAsked)

theorem ByRun.refl (s : State) : ByRun s s := ⟨rfl, rfl, .refl _, fun _ => rfl⟩

theorem ByRun.trans (h : ByRun s t) (h' : ByRun t u) : ByRun s u :=
  ⟨h'.clients.trans h.clients, h'.holder.trans h.holder, h'.running.trans h.running,
    fun g => (h'.asked g).trans (h.asked g)⟩

theorem asked_setPhase (s : State) (g : Nat) (phase : Phase) (g' : Nat) :
    ((s.setPhase g phase).run? g').map (·.stopAsked) = (s.run? g').map (·.stopAsked) := by
  rw [setPhase, run?_updateRun, Option.map_map]
  · congr 1
    funext r
    simp only [Function.comp_apply]
    split <;> rfl
  · exact fun _ => rfl

theorem ByRun.of_setPhase {phase : Phase} (hruns : t.runs = (s.setPhase g phase).runs)
    (hclients : t.clients = s.clients) (hholder : t.holder = s.holder)
    (hrunning : t.running.Sublist s.running) : ByRun s t := by
  refine ⟨hclients, hholder, hrunning, fun g' => ?_⟩
  rw [run?, hruns]
  exact s.asked_setPhase g phase g'

theorem ByRun.move (hm : Moves capture s e t) (he : e.isRun = true) : ByRun s t := by
  cases hm with
  | begin => exact .of_setPhase rfl rfl rfl (.refl _)
  | yield => exact .of_setPhase rfl rfl rfl (.refl _)
  | crash => exact .of_setPhase rfl rfl rfl (.refl _)
  | unregister => exact .of_setPhase rfl rfl rfl List.filter_sublist
  | dismiss => exact .of_setPhase rfl rfl rfl (.refl _)
  | pass => exact .of_setPhase rfl rfl rfl (.refl _)
  | deliver => exact .of_setPhase rfl rfl rfl (.refl _)
  | _ => cases he

theorem ByRun.of_play (h : play capture s events = some t) (he : ∀ e ∈ events, e.isRun = true) :
    ByRun s t := by
  induction events generalizing s with
  | nil =>
    cases h
    exact .refl _
  | cons e rest ih =>
    obtain ⟨⟨middle, notices⟩, hstep, hlater⟩ := Option.bind_eq_some_iff.mp h
    have hfirst : ByRun s middle := .move (moves_of_step hstep) (he e List.mem_cons_self)
    exact hfirst.trans (ih hlater fun e' hmem => he e' (List.mem_cons_of_mem e hmem))

/-- A run does the same whatever the clients are and whoever may start a run. -/
theorem stepRun_beside (s : State) (clients : List Client) (holder : Option Nat)
    (run : Verification) (e : Event) :
    stepRun { s with clients, holder } run e =
      (stepRun s run e).map fun move => ({ move.1 with clients, holder }, move.2) := by
  cases e with
  | check g =>
    simp only [stepRun]
    cases run.phase with
    | unregistered o =>
      simp only [check, Option.map_some]
      split
      · rfl
      · cases o <;> rfl
    | _ => rfl
  | _ =>
    simp only [stepRun]
    cases run.phase <;> rfl

theorem step_beside (s : State) (clients : List Client) (holder : Option Nat)
    (he : e.isRun = true) : step capture { s with clients, holder } e =
      (step capture s e).map fun move => ({ move.1 with clients, holder }, move.2) := by
  unfold Event.isRun at he
  split at he
  · rename_i g hmover
    have hrun : run? { s with clients, holder } g = s.run? g := rfl
    simp only [step, hmover, hrun]
    cases s.run? g with
    | none => rfl
    | some run => exact stepRun_beside s clients holder run e
  · cases he

/-- The log that an event hands over, as the operation on the debugger that it is. -/
def handover? (s : State) : Event → Option Operation
  | .deliver g =>
    match s.run? g with
    | none => none
    | some run =>
      match run.phase with
      | .cleared log => some (.complete run.uri log)
      | _ => none
  | _ => none

/-- The logs that are handed over along events, each by a run that has seen, after it had its
answer, that it was not asked to stop. -/
def handedOver (capture : Heap.Capture) (s : State) : List Event → List Operation
  | [] => []
  | e :: later =>
    match step capture s e with
    | none => []
    | some move => (s.handover? e).toList ++ handedOver capture move.1 later

theorem handover?_of_client {i : Nat} (he : e.mover = .client i) : s.handover? e = none := by
  cases e <;> first | rfl | cases he

theorem handedOver_concat {notices : List Notice} (h : play capture s events = some t)
    (hstep : step capture t e = some (u, notices)) :
    handedOver capture s (events ++ [e]) =
      handedOver capture s events ++ (t.handover? e).toList := by
  induction events generalizing s with
  | nil =>
    cases h
    simp only [List.nil_append, handedOver, hstep, List.append_nil]
  | cons first rest ih =>
    obtain ⟨middle, hfirst, hlater⟩ := Option.bind_eq_some_iff.mp h
    simp only [List.cons_append, handedOver, hfirst, ih hlater, List.append_assoc]

theorem debugger_byRun (hm : Moves capture s e t) (he : e.isRun = true) :
    t.debugger = s.debugger.after capture (s.handover? e).toList := by
  cases hm with
  | begin => rfl
  | yield => rfl
  | crash => rfl
  | unregister => rfl
  | dismiss => rfl
  | pass => rfl
  | deliver hrun hphase =>
    simp only [handover?, hrun, hphase]
    rfl
  | _ => cases he

def arrive (s : State) (request : Request) : State :=
  { s with clients := s.clients ++ [.arrived request] }

/-- The events by which a request for a new verification is served, alone, from its arrival
to some state. -/
structure Serving (capture : Heap.Capture) (s : State) (uri : String) (manual : Bool)
    (events : List Event) (t : State) : Prop where
  alone : ∀ e ∈ events, e.Serves s.clients.length
  played : play capture (s.arrive (.verify uri manual)) events = some t

variable {uri : String} {manual : Bool}

/-- What holds when the request arrives and is kept by each event holds all along. -/
theorem Serving.induct {P : List Event → State → Prop}
    (h : Serving capture s uri manual events t) (first : P [] (s.arrive (.verify uri manual)))
    (moved : ∀ events e t u notices, Serving capture s uri manual events t → P events t →
      step capture t e = some (u, notices) → e.Serves s.clients.length → P (events ++ [e]) u) :
    P events t := by
  obtain ⟨alone, played⟩ := h
  induction events using List.reverseRecOn generalizing t with
  | nil =>
    cases played
    exact first
  | append_singleton earlier e ih =>
    obtain ⟨middle, notices, hearlier, hstep⟩ := play_concat_eq_some_iff.mp played
    have hbefore : ∀ e' ∈ earlier, e'.Serves s.clients.length := fun e' hmem =>
      alone e' (List.mem_append_left _ hmem)
    exact moved earlier e middle t notices ⟨hbefore, hearlier⟩ (ih hbefore hearlier) hstep
      (alone e (List.mem_append_right _ (List.mem_singleton_self e)))

theorem Serving.reaches (h : Serving capture s uri manual events t) : Reaches capture s t :=
  Reaches.play (.step .start (e := .arrive (.verify uri manual)) rfl) h.played

theorem Serving.sound (h : Serving capture s uri manual events t) (hs : s.Sound) : t.Sound :=
  (hs.continues h.reaches).1

/-- A client moves to another stage, and nobody else does. -/
theorem exists_stage {i : Nat} (hm : Moves capture s e t) (he : e.mover = .client i) :
    ∃ stage, t.clients = (s.setStage i stage).clients := by
  cases hm with
  | arrive => cases he
  | operate => cases he
  | setReady => cases he
  | begin => cases he
  | yield => cases he
  | crash => cases he
  | unregister => cases he
  | dismiss => cases he
  | pass => cases he
  | deliver => cases he
  | _ =>
    cases he
    exact ⟨_, rfl⟩

theorem setStage_last {request : Request} {stage : Stage}
    (h : t.clients = s.clients ++ [⟨request, stage⟩]) (stage' : Stage) :
    (t.setStage s.clients.length stage').clients = s.clients ++ [⟨request, stage'⟩] := by
  have hlt : s.clients.length < (s.clients ++ [Client.mk request stage]).length := by simp
  simp only [setStage, h]
  rw [List.modify_eq_take_cons_drop hlt]
  simp

theorem ready_of_moves (hm : Moves capture s e t) (he : e.mover ≠ .other) : t.ready = s.ready := by
  cases hm with
  | setReady => exact absurd rfl he
  | _ => rfl

theorem isOpen_of_moves (hm : Moves capture s e t) (he : e.mover ≠ .other) (other : String) :
    (t.debugger.task? other).isSome = (s.debugger.task? other).isSome := by
  cases hm with
  | operate => exact absurd rfl he
  | @reset i uri =>
    change ((s.debugger.start uri).state.task? other).isSome = _
    rw [Debugger.start_state]
    exact s.debugger.task?_isSome_updateUri uri other _
  | @deliver g run log =>
    change ((s.debugger.complete run.uri log).state.task? other).isSome = _
    rw [Debugger.complete_state]
    exact s.debugger.task?_isSome_updateUri run.uri other _
  | _ => rfl

/-- What there is beside a request that is served alone stays as it was: the other clients,
whether the verifier is ready, and which documents are open. -/
structure Beside (s : State) (request : Request) (t : State) : Prop where
  clients : ∃ stage, t.clients = s.clients ++ [⟨request, stage⟩]
  ready : t.ready = s.ready
  isOpen : ∀ other, (t.debugger.task? other).isSome = (s.debugger.task? other).isSome

theorem Serving.beside (h : Serving capture s uri manual events t) :
    Beside s (.verify uri manual) t := by
  refine h.induct (P := fun _ t => Beside s (.verify uri manual) t)
    ⟨⟨_, rfl⟩, rfl, fun _ => rfl⟩ ?_
  intro events e t u notices _ ih hstep he
  have hm := moves_of_step hstep
  refine ⟨?_, (ready_of_moves hm he.ne_other).trans ih.ready,
    fun other => (isOpen_of_moves hm he.ne_other other).trans (ih.isOpen other)⟩
  obtain ⟨stage, hclients⟩ := ih.clients
  rcases he with hclient | hrun
  · obtain ⟨stage', hstage⟩ := exists_stage hm hclient
    exact ⟨stage', hstage.trans (setStage_last hclients stage')⟩
  · exact ⟨stage, (ByRun.move hm hrun).clients.trans hclients⟩

end State

end Scheduler

end ProofStepper
