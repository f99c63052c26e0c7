import ProofStepper.Proofs.Scheduler.Alone

/-!
# What a refusal leaves behind

A request for a new verification is refused before it has touched anything, or because a
run that it stopped did not end in time. Then it has taken the run out of the register,
asked it to stop and aborted it, and has not come to drop what the documents hold. The
register is empty and nobody holds the right to start a run, so the next request meets
nothing that it would have to stop.
-/
namespace ProofStepper.Scheduler

theorem Phase.isLive_abort (p : Phase) : p.abort.isLive = false := by
  cases p <;> rfl

/-- A client that is not told that all runs stopped in time has aborted one. -/
theorem exists_late_of_conclusion? {hs : List Halt} (h : conclusion? hs = some false) :
    ∃ halt ∈ hs, halt.state = .answered false := by
  unfold conclusion? at h
  split at h
  · rename_i hall
    obtain ⟨halt, hmem, hlate⟩ := List.all_eq_false.mp (Option.some.inj h)
    refine ⟨halt, hmem, ?_⟩
    have hanswered := List.all_eq_true.mp hall halt hmem
    cases hstate : halt.state with
    | answered b =>
      cases b with
      | false => rfl
      | true => simp [hstate] at hlate
    | _ => simp [hstate, HaltState.answer?] at hanswered
  · cases h

/-- A run that was asked to stop and still has a log to hand over is about to do so. -/
theorem Verification.Offers.cleared_of_asked {r : Verification} {log : ProofLog}
    (h : r.Offers log) (hasked : r.stopAsked = true) : r.phase = .cleared log := by
  obtain ⟨_, _, _, phase, asked⟩ := r
  cases hasked
  cases phase with
  | spawned => cases h
  | calling => cases h
  | returned o => cases h.2
  | unregistered o => cases h.2
  | cleared found => exact congrArg Phase.cleared h
  | _ => exact False.elim h

theorem start_of_isOpen {d : Debugger} {uri : String} (h : (d.task? uri).isSome) :
    (d.start uri).answer = .ok () := by
  cases hp : d.place? uri with
  | none => simp [Debugger.task?, Debugger.document?, hp] at h
  | some place => simp only [Debugger.start, Debugger.place, hp]

namespace State
variable {capture : Heap.Capture} {s t u : State} {e : Event} {events : List Event} {g : Nat}
  {request : Request} {stage : Stage} {holder : Option Nat} {notices : List Notice}

/-- The state that the runs alone lead to, apart from the client that came last. -/
def AsRuns (capture : Heap.Capture) (s : State) (events : List Event) (client : Client)
    (holder : Option Nat) (t : State) : Prop :=
  ∃ s', play capture s (events.filter Event.isRun) = some s' ∧
    t = { s' with clients := s.clients ++ [client], holder }

theorem AsRuns.arrive (capture : Heap.Capture) (s : State) (request : Request) :
    AsRuns capture s [] (.arrived request) s.holder (s.arrive request) :=
  ⟨s, rfl, rfl⟩

theorem AsRuns.byRun {client : Client} (h : AsRuns capture s events client holder t)
    (hstep : step capture t e = some (u, notices)) (he : e.isRun = true) :
    AsRuns capture s (events ++ [e]) client holder u := by
  obtain ⟨s', hplay, rfl⟩ := h
  rw [step_beside s' _ holder he] at hstep
  obtain ⟨⟨s'', notices'⟩, hstep', heq⟩ := Option.map_eq_some_iff.mp hstep
  cases heq
  refine ⟨s'', ?_, rfl⟩
  rw [List.filter_append, List.filter_singleton, he]
  exact play_concat_eq_some_iff.mpr ⟨s', _, hplay, hstep'⟩

theorem AsRuns.byClient (h : AsRuns capture s events ⟨request, stage⟩ holder t)
    (he : e.isRun = false) (stage' : Stage) (holder' : Option Nat) :
    AsRuns capture s (events ++ [e]) ⟨request, stage'⟩ holder'
      { t.setStage s.clients.length stage' with holder := holder' } := by
  obtain ⟨s', hplay, rfl⟩ := h
  refine ⟨s', ?_, ?_⟩
  · rw [List.filter_append, List.filter_singleton, he]
    simpa using hplay
  · rw [← setStage_last (t := { s' with clients := s.clients ++ [⟨request, stage⟩], holder }) rfl
      stage']
    rfl

/-- A client goes on without the right to start a run, or keeps it. -/
theorem AsRuns.advance (h : AsRuns capture s events ⟨request, stage⟩ holder t)
    (he : e.isRun = false) (stage' : Stage) :
    AsRuns capture s (events ++ [e]) ⟨request, stage'⟩ holder
      (t.setStage s.clients.length stage') := by
  have hsame : t.holder = holder := by
    obtain ⟨s', -, rfl⟩ := h
    rfl
  have hmoved := h.byClient he stage' holder
  rwa [← hsame] at hmoved ⊢

theorem AsRuns.byRuns {client : Client} (h : AsRuns capture s events client holder t) :
    ∃ s', ByRun s s' ∧ t = { s' with clients := s.clients ++ [client], holder } := by
  obtain ⟨s', hplay, heq⟩ := h
  exact ⟨s', .of_play hplay fun e he => (List.mem_filter.mp he).2, heq⟩

/-- A run was asked to stop and aborted: it gets no answer from the verifier any more. -/
structure Halted (client : Nat) (events : List Event) (g : Nat) (t : State) : Prop where
  run : ∃ r ∈ t.runs, r.generation = g ∧ r.stopAsked = true ∧ r.phase.isLive = false
  aborted : Event.expire client g ∈ events

theorem Halted.of_updateRun {client g' : Nat} {change : Verification → Verification}
    (h : Halted client events g t) (hruns : u.runs = (t.updateRun g' change).runs)
    (hgeneration : ∀ r, (change r).generation = r.generation)
    (hkept : ∀ r ∈ t.runs, r.generation = g' → r.stopAsked = true → r.phase.isLive = false →
      (change r).stopAsked = true ∧ (change r).phase.isLive = false) :
    Halted client (events ++ [e]) g u := by
  obtain ⟨⟨r, hr, hg, hasked, hlive⟩, haborted⟩ := h
  refine ⟨⟨_, hruns ▸ mem_updateRun.mpr ⟨r, hr, rfl⟩, ?_⟩, List.mem_append_left _ haborted⟩
  split
  · rename_i hsame
    exact ⟨(hgeneration r).trans hg, hkept r hr hsame hasked hlive⟩
  · exact ⟨hg, hasked, hlive⟩

theorem Halted.of_setPhase {client g' : Nat} {phase : Phase} (h : Halted client events g t)
    (hruns : u.runs = (t.setPhase g' phase).runs) (hphase : phase.isLive = false) :
    Halted client (events ++ [e]) g u :=
  h.of_updateRun hruns (fun _ => rfl) fun _ _ _ hasked _ => ⟨hasked, hphase⟩

/-- Whatever happens next, the run stays as it is. -/
theorem Halted.move {client : Nat} (h : Halted client events g t) (hr : t.Register)
    (hm : Moves capture t e u) : Halted client (events ++ [e]) g u := by
  cases hm with
  | signal =>
    exact h.of_updateRun rfl (fun _ => rfl) fun _ _ _ _ hlive => ⟨rfl, hlive⟩
  | expire =>
    exact h.of_updateRun rfl (fun _ => rfl) fun r _ _ hasked _ => ⟨hasked, r.phase.isLive_abort⟩
  | spawn =>
    obtain ⟨⟨r, hmem, hown⟩, haborted⟩ := h
    exact ⟨⟨r, List.mem_append_left _ hmem, hown⟩, List.mem_append_left _ haborted⟩
  | begin hrun hphase =>
    refine h.of_updateRun rfl (fun _ => rfl) fun r hmem hg hasked hlive => ?_
    obtain ⟨hown, hgeneration⟩ := mem_of_run? hrun
    obtain rfl := hr.run_unique hmem hown (hg.trans hgeneration.symm)
    rw [hphase] at hlive
    cases hlive
  | yield => exact h.of_setPhase rfl rfl
  | crash => exact h.of_setPhase rfl rfl
  | unregister => exact h.of_setPhase rfl rfl
  | dismiss => exact h.of_setPhase rfl rfl
  | pass => exact h.of_setPhase rfl rfl
  | deliver => exact h.of_setPhase rfl rfl
  | _ => exact ⟨h.run, List.mem_append_left _ h.aborted⟩

/-- The runs that a client stops: each stood alone in the register when its request came, and
those that did not stop in time were asked to and aborted. -/
def Halts (s : State) (events : List Event) (hs : List Halt) (t : State) : Prop :=
  ∀ h ∈ hs, (∃ uri, s.running = [(uri, h.generation)]) ∧
    (h.state = .answered false → Halted s.clients.length events h.generation t)

theorem Halts.take (hr : s.Register) (hrunning : t.running.Sublist s.running) :
    Halts s events (halts t.running) u := by
  intro h hmem
  refine ⟨?_, fun hstate => ?_⟩
  · obtain ⟨entry, hentry, rfl⟩ := List.mem_map.mp hmem
    exact ⟨entry.1, eq_singleton_of_mem hr.single (hrunning.subset hentry)⟩
  · rw [state_of_mem_halts hmem] at hstate
    cases hstate

theorem Halts.move {hs : List Halt} (h : Halts s events hs t) (hr : t.Register)
    (hm : Moves capture t e u) : Halts s (events ++ [e]) hs u :=
  fun halt hmem => ⟨(h halt hmem).1, fun hstate => ((h halt hmem).2 hstate).move hr hm⟩

/-- One run is answered for. -/
theorem Halts.setHalt {hs : List Halt} (h : Halts s events hs u) {state : HaltState}
    (hnew : state = .answered false → Halted s.clients.length events g u) :
    Halts s events (setHalt hs g state) u := by
  intro halt hmem
  obtain ⟨old, hold, rfl⟩ := mem_setHalt.mp hmem
  obtain ⟨hentry, hlate⟩ := h old hold
  split
  · rename_i hg
    exact ⟨hentry, fun hstate => hg ▸ hnew hstate⟩
  · exact ⟨hentry, hlate⟩

/-- A run whose time is over is aborted. It was asked to stop before. -/
theorem Halted.expire {i : Nat} (hsound : t.Sound) {hs : List Halt}
    (hc : t.clients[i]? = some ⟨request, .stopping hs⟩) {timeoutMs : Nat}
    (hasked : haltState? hs g = some (.asked timeoutMs)) {run : Verification}
    (hrun : t.run? g = some run) :
    Halted i (events ++ [.expire i g]) g (expire t i run hs timeoutMs).1 := by
  obtain ⟨hmem, hg⟩ := mem_of_run? hrun
  obtain ⟨halt, hhalt, hgeneration, hstate⟩ := exists_halt_of_haltState? hasked
  have hstop := hsound.warned.stopAsked hsound.register hc hhalt hstate hmem
    (hg.trans hgeneration.symm)
  refine ⟨⟨_, mem_updateRun.mpr ⟨run, hmem, rfl⟩, ?_⟩, by simp⟩
  rw [if_pos rfl]
  exact ⟨hg, hstop, run.phase.isLive_abort⟩

/-- What a conflict leaves: nothing in the register, nobody with the right to start a run,
and the run that stood in the register asked to stop and aborted. -/
structure Conflicting (s : State) (events : List Event) (t : State) : Prop where
  emptied : t.running = []
  free : t.holder = none
  halted : ∃ uri g, s.running = [(uri, g)] ∧ Halted s.clients.length events g t

theorem Conflicting.byRun (h : Conflicting s events t) (hr : t.Register)
    (hm : Moves capture t e u) (he : e.isRun = true) : Conflicting s (events ++ [e]) u := by
  have hby := ByRun.move hm he
  obtain ⟨uri, g, hrunning, hhalted⟩ := h.halted
  refine ⟨?_, hby.holder.trans h.free, uri, g, hrunning, hhalted.move hr hm⟩
  exact List.sublist_nil.mp (h.emptied ▸ hby.running)

theorem Conflicting.of_conclusion {hs : List Halt} (hsound : t.Sound)
    (hc : t.clients[s.clients.length]? = some ⟨request, .stopping hs⟩)
    (hverify : Client.holds ⟨request, .stopping hs⟩ = true)
    (hconclusion : conclusion? hs = some false) (h : Halts s events hs t) (v : Verdict) :
    Conflicting s (events ++ [e]) (t.release s.clients.length v) := by
  obtain ⟨halt, hmem, hlate⟩ := exists_late_of_conclusion? hconclusion
  obtain ⟨⟨uri, hrunning⟩, hhalted⟩ := h halt hmem
  obtain ⟨hrun, haborted⟩ := hhalted hlate
  exact ⟨hsound.register.cleared _ _ hc hverify Stage.noConfusion, rfl, uri, halt.generation,
    hrunning, hrun, List.mem_append_left _ haborted⟩

variable {uri : String} {manual : Bool}

/-- All that the debugger was told are the logs that were handed over. -/
def OnlyHandedOver (capture : Heap.Capture) (s : State) (request : Request) (events : List Event)
    (t : State) : Prop :=
  t.debugger = s.debugger.after capture (handedOver capture (s.arrive request) events)

theorem OnlyHandedOver.byRun (h : OnlyHandedOver capture s (.verify uri manual) events t)
    (hs : Serving capture s uri manual events t) (hstep : step capture t e = some (u, notices))
    (he : e.isRun = true) : OnlyHandedOver capture s (.verify uri manual) (events ++ [e]) u := by
  rw [OnlyHandedOver, handedOver_concat hs.played hstep, debugger_byRun (moves_of_step hstep) he,
    h]
  simp only [Debugger.after, List.foldl_append]

theorem OnlyHandedOver.byClient (h : OnlyHandedOver capture s (.verify uri manual) events t)
    (hs : Serving capture s uri manual events t) (hstep : step capture t e = some (u, notices))
    (he : e.mover = .client s.clients.length) (hdebugger : u.debugger = t.debugger) :
    OnlyHandedOver capture s (.verify uri manual) (events ++ [e]) u := by
  rw [OnlyHandedOver, handedOver_concat hs.played hstep, handover?_of_client he, hdebugger, h]
  simp

/-- Why a request was refused, and what has come of it. -/
inductive RefusedFor (capture : Heap.Capture) (s : State) (uri : String) (manual : Bool)
    (events : List Event) (t : State) : Failure → Prop
  | unknown : s.debugger.task? uri = none →
      AsRuns capture s events ⟨.verify uri manual, .done (.refused (.unknownDocument uri))⟩
        s.holder t →
      RefusedFor capture s uri manual events t (.unknownDocument uri)
  | unready : s.ready = false →
      AsRuns capture s events ⟨.verify uri manual, .done (.refused .backendUnavailable)⟩
        s.holder t →
      RefusedFor capture s uri manual events t .backendUnavailable
  | conflict : Conflicting s events t →
      RefusedFor capture s uri manual events t .verificationConflict

/-- What is known in each stage up to the one in which the documents are dropped. -/
def Stands (capture : Heap.Capture) (s : State) (uri : String) (manual : Bool)
    (events : List Event) (t : State) : Stage → Prop
  | .arrived =>
    OnlyHandedOver capture s (.verify uri manual) events t ∧
      AsRuns capture s events ⟨.verify uri manual, .arrived⟩ s.holder t
  | .waiting =>
    OnlyHandedOver capture s (.verify uri manual) events t ∧ (s.debugger.task? uri).isSome ∧
      AsRuns capture s events ⟨.verify uri manual, .waiting⟩ s.holder t
  | .holding =>
    OnlyHandedOver capture s (.verify uri manual) events t ∧ (s.debugger.task? uri).isSome ∧
      AsRuns capture s events ⟨.verify uri manual, .holding⟩ (some s.clients.length) t
  | .stopping hs =>
    OnlyHandedOver capture s (.verify uri manual) events t ∧ (s.debugger.task? uri).isSome ∧
      Halts s events hs t
  | .cleared => (s.debugger.task? uri).isSome
  | .done (.refused f) =>
    OnlyHandedOver capture s (.verify uri manual) events t ∧
      RefusedFor capture s uri manual events t f
  | .started | .numbered _ | .done .started => True
  | .awaiting _ | .done (.told _) => False

theorem Stands.byRun (h : Stands capture s uri manual events t stage) (hsound : t.Sound)
    (hs : Serving capture s uri manual events t) (hstep : step capture t e = some (u, notices))
    (he : e.isRun = true) : Stands capture s uri manual (events ++ [e]) u stage := by
  have hm := moves_of_step hstep
  cases stage with
  | arrived => exact ⟨h.1.byRun hs hstep he, h.2.byRun hstep he⟩
  | waiting => exact ⟨h.1.byRun hs hstep he, h.2.1, h.2.2.byRun hstep he⟩
  | holding => exact ⟨h.1.byRun hs hstep he, h.2.1, h.2.2.byRun hstep he⟩
  | stopping hs' => exact ⟨h.1.byRun hs hstep he, h.2.1, h.2.2.move hsound.register hm⟩
  | cleared => exact h
  | started => trivial
  | numbered g => trivial
  | awaiting g => exact h
  | done v =>
    cases v with
    | started => trivial
    | told b => exact h
    | refused f =>
      refine ⟨h.1.byRun hs hstep he, ?_⟩
      cases h.2 with
      | unknown hnone hruns => exact .unknown hnone (hruns.byRun hstep he)
      | unready hready hruns => exact .unready hready (hruns.byRun hstep he)
      | conflict hconflict => exact .conflict (hconflict.byRun hsound.register hm he)

/-- The client of the request moves: it is refused, or goes on to the next stage. -/
theorem Stands.byClient (h : Stands capture s uri manual events t stage) (hsound : s.Sound)
    (hs : Serving capture s uri manual events t)
    (hclients : t.clients = s.clients ++ [⟨.verify uri manual, stage⟩])
    (hstep : step capture t e = some (u, notices)) (he : e.mover = .client s.clients.length) :
    ∃ stage', u.clients = s.clients ++ [⟨.verify uri manual, stage'⟩] ∧
      Stands capture s uri manual (events ++ [e]) u stage' := by
  have hm := moves_of_step hstep
  have hrun : e.isRun = false := Event.isRun_eq_false he
  have ht := hs.sound hsound
  have hlast : t.clients[s.clients.length]? = some ⟨.verify uri manual, stage⟩ := by
    simp [hclients]
  have hopen := hs.beside.isOpen uri
  have hnext : ∀ stage', (t.setStage s.clients.length stage').clients =
      s.clients ++ [⟨.verify uri manual, stage'⟩] := setStage_last hclients
  have hstill : OnlyHandedOver capture s (.verify uri manual) events t →
      u.debugger = t.debugger →
      OnlyHandedOver capture s (.verify uri manual) (events ++ [e]) u := fun hall hdebugger =>
    hall.byClient hs hstep he hdebugger
  have hhalts : ∀ {hs : List Halt}, Halts s events hs t → Halts s (events ++ [e]) hs u :=
    fun hall => hall.move ht.register hm
  cases hm with
  | refuseUnknown hc hnone =>
    cases he
    cases hlast.symm.trans hc
    rw [hnone] at hopen
    have hclosed : s.debugger.task? uri = none := by simpa using hopen
    exact ⟨_, hnext _, hstill h.1 rfl, .unknown hclosed (h.2.advance hrun _)⟩
  | refuseUnready hc hready =>
    cases he
    cases hlast.symm.trans hc
    exact ⟨_, hnext _, hstill h.1 rfl,
      .unready (hs.beside.ready.symm.trans hready) (h.2.advance hrun _)⟩
  | queue hc hisOpen hready =>
    cases he
    cases hlast.symm.trans hc
    exact ⟨_, hnext _, hstill h.1 rfl, hopen ▸ hisOpen, h.2.advance hrun _⟩
  | acquire hc hfree =>
    cases he
    cases hlast.symm.trans hc
    exact ⟨_, hnext _, hstill h.1 rfl, h.2.1, h.2.2.byClient hrun _ _⟩
  | takeHolding hc =>
    cases he
    cases hlast.symm.trans hc
    obtain ⟨s', hby, hsame⟩ := h.2.2.byRuns
    have hrunning : t.running.Sublist s.running := hsame ▸ hby.running
    exact ⟨_, hnext _, hstill h.1 rfl, h.2.1, .take hsound.register hrunning⟩
  | takeAll hc =>
    cases he
    cases hlast.symm.trans hc
  | takeUri hc =>
    cases he
    cases hlast.symm.trans hc
  | takeAwaiting hc =>
    cases he
    cases hlast.symm.trans hc
  | takeNothing hc =>
    cases he
    cases hlast.symm.trans hc
  | signalOver hc =>
    cases he
    cases hlast.symm.trans hc
    exact ⟨_, hnext _, hstill h.1 rfl, h.2.1, (hhalts h.2.2).setHalt nofun⟩
  | signal hc =>
    cases he
    cases hlast.symm.trans hc
    exact ⟨_, hnext _, hstill h.1 rfl, h.2.1, (hhalts h.2.2).setHalt nofun⟩
  | observe hc =>
    cases he
    cases hlast.symm.trans hc
    exact ⟨_, hnext _, hstill h.1 rfl, h.2.1, (hhalts h.2.2).setHalt nofun⟩
  | observeAwaited hc =>
    cases he
    cases hlast.symm.trans hc
    exact False.elim h
  | expire hc hasked hfound =>
    cases he
    cases hlast.symm.trans hc
    obtain ⟨-, rfl⟩ := mem_of_run? hfound
    refine ⟨_, hnext _, hstill h.1 rfl, h.2.1, (hhalts h.2.2).setHalt fun _ => ?_⟩
    exact .expire ht hc hasked hfound
  | clear hc =>
    cases he
    cases hlast.symm.trans hc
    exact ⟨_, hnext _, h.2.1⟩
  | conflict hc hconclusion =>
    cases he
    cases hlast.symm.trans hc
    exact ⟨_, hnext _, hstill h.1 rfl, .conflict (.of_conclusion ht hc rfl hconclusion h.2.2 _)⟩
  | tell hc hother =>
    cases he
    cases hlast.symm.trans hc
    exact absurd rfl (hother uri manual)
  | fail hc herror =>
    cases he
    cases hlast.symm.trans hc
    rw [start_of_isOpen (hopen.trans h)] at herror
    cases herror
  | reset hc =>
    cases he
    cases hlast.symm.trans hc
    exact ⟨_, hnext _, trivial⟩
  | number hc =>
    cases he
    cases hlast.symm.trans hc
    exact ⟨_, hnext _, trivial⟩
  | spawn hc =>
    cases he
    cases hlast.symm.trans hc
    exact ⟨_, hnext _, trivial⟩
  | arrive => cases he
  | operate => cases he
  | setReady => cases he
  | _ => cases hrun

/-- The stage to which a request has come, and what is known in it. -/
theorem Serving.stands (h : Serving capture s uri manual events t) (hsound : s.Sound) :
    ∃ stage, t.clients = s.clients ++ [⟨.verify uri manual, stage⟩] ∧
      Stands capture s uri manual events t stage := by
  refine h.induct (P := fun events t => ∃ stage,
    t.clients = s.clients ++ [⟨.verify uri manual, stage⟩] ∧
      Stands capture s uri manual events t stage) ⟨.arrived, rfl, rfl, .arrive ..⟩ ?_
  rintro events e t u notices hs ⟨stage, hclients, hstands⟩ hstep (he | he)
  · exact hstands.byClient hsound hs hclients hstep he
  · have hkept := (ByRun.move (moves_of_step hstep) he).clients
    exact ⟨stage, hkept.trans hclients, hstands.byRun (hs.sound hsound) hs hstep he⟩

/-- The request can be served, by its own client alone, until its run is started. -/
def Starts (capture : Heap.Capture) (s : State) (uri : String) (manual : Bool) : Prop :=
  ∃ events t, Serving capture s uri manual events t ∧
    t.clients = s.clients ++ [⟨.verify uri manual, .done .started⟩]

theorem Serving.advance (h : Serving capture s uri manual events t)
    (hc : t.clients = s.clients ++ [⟨.verify uri manual, stage⟩])
    (he : e.mover = .client s.clients.length)
    (hstep : stepClient t s.clients.length ⟨.verify uri manual, stage⟩ e = some (u, notices)) :
    Serving capture s uri manual (events ++ [e]) u := by
  have hlast : t.clients[s.clients.length]? = some ⟨.verify uri manual, stage⟩ := by simp [hc]
  refine ⟨fun e' hmem => ?_, play_concat_eq_some_iff.mpr ⟨t, notices, h.played, ?_⟩⟩
  · rcases List.mem_append.mp hmem with hold | hnew
    · exact h.alone e' hold
    · exact .inl (List.mem_singleton.mp hnew ▸ he)
  · simp only [step, he, hlast, Option.bind_some, hstep]

theorem starts_of_numbered (h : Serving capture s uri manual events t)
    (hc : t.clients = s.clients ++ [⟨.verify uri manual, .numbered g⟩]) :
    s.Starts capture uri manual :=
  ⟨_, _, h.advance (e := .spawn s.clients.length) hc rfl rfl, setStage_last hc (.done .started)⟩

theorem starts_of_started (h : Serving capture s uri manual events t)
    (hc : t.clients = s.clients ++ [⟨.verify uri manual, .started⟩]) :
    s.Starts capture uri manual :=
  starts_of_numbered (h.advance (e := .number s.clients.length) hc rfl rfl) (setStage_last hc _)

theorem starts_of_cleared (h : Serving capture s uri manual events t)
    (hc : t.clients = s.clients ++ [⟨.verify uri manual, .cleared⟩])
    (hopen : (s.debugger.task? uri).isSome) : s.Starts capture uri manual := by
  have hanswer := start_of_isOpen ((h.beside.isOpen uri).trans hopen)
  have hstep : stepClient t s.clients.length ⟨.verify uri manual, .cleared⟩
      (.reset s.clients.length) = some ({ t.setStage s.clients.length .started with
        debugger := (t.debugger.start uri).state }, (t.debugger.start uri).notices) := by
    simp only [stepClient, hanswer]
  exact starts_of_started (h.advance hc rfl hstep) (setStage_last hc _)

theorem starts_of_stopping (h : Serving capture s uri manual events t)
    (hc : t.clients = s.clients ++ [⟨.verify uri manual, .stopping []⟩])
    (hopen : (s.debugger.task? uri).isSome) : s.Starts capture uri manual :=
  starts_of_cleared (h.advance (e := .conclude s.clients.length) hc rfl rfl) (setStage_last hc _)
    hopen

theorem starts_of_holding (h : Serving capture s uri manual events t)
    (hc : t.clients = s.clients ++ [⟨.verify uri manual, .holding⟩]) (hempty : t.running = [])
    (hopen : (s.debugger.task? uri).isSome) : s.Starts capture uri manual := by
  have htaken : (takeAll t s.clients.length).clients =
      s.clients ++ [⟨.verify uri manual, .stopping (halts t.running)⟩] := setStage_last hc _
  rw [hempty] at htaken
  exact starts_of_stopping (h.advance (e := .take s.clients.length) hc rfl rfl) htaken hopen

theorem starts_of_waiting (h : Serving capture s uri manual events t)
    (hc : t.clients = s.clients ++ [⟨.verify uri manual, .waiting⟩]) (hfree : t.holder = none)
    (hempty : t.running = []) (hopen : (s.debugger.task? uri).isSome) :
    s.Starts capture uri manual := by
  have hstep : stepClient t s.clients.length ⟨.verify uri manual, .waiting⟩
      (.acquire s.clients.length) = some ({ t.setStage s.clients.length .holding with
        holder := some s.clients.length }, []) := by
    simp only [stepClient, hfree]
  exact starts_of_holding (h.advance hc rfl hstep) (setStage_last hc _) hempty hopen

/-- While nobody holds the right to start a run and the register is empty, a request for an
open document comes to its run. -/
theorem starts_of_free (capture : Heap.Capture) (manual : Bool) (hfree : s.holder = none)
    (hempty : s.running = []) (hopen : (s.debugger.task? uri).isSome) (hready : s.ready = true) :
    s.Starts capture uri manual := by
  have harrived : Serving capture s uri manual [] (s.arrive (.verify uri manual)) := ⟨nofun, rfl⟩
  have hc : (s.arrive (.verify uri manual)).clients =
      s.clients ++ [⟨.verify uri manual, .arrived⟩] := rfl
  have hstep : stepClient (s.arrive (.verify uri manual)) s.clients.length
      ⟨.verify uri manual, .arrived⟩ (.consider s.clients.length) =
      some ((s.arrive (.verify uri manual)).setStage s.clients.length .waiting, []) := by
    have hpresent : (s.debugger.task? uri).isNone = false := by simpa using hopen
    simp [stepClient, consider, State.arrive, hpresent, hready]
  exact starts_of_waiting (harrived.advance hc rfl hstep) (setStage_last hc _) hfree hempty hopen

/-- A request that meets neither is not refused. -/
theorem Serving.eq_started (h : Serving capture s uri manual events t) (hsound : s.Sound)
    (hempty : s.running = []) (hopen : (s.debugger.task? uri).isSome) (hready : s.ready = true)
    {v : Verdict} (hdone : t.clients[s.clients.length]? = some ⟨.verify uri manual, .done v⟩) :
    v = .started := by
  obtain ⟨stage, hclients, hstands⟩ := h.stands hsound
  obtain rfl : stage = .done v := by simpa [hclients] using hdone
  cases v with
  | started => rfl
  | told b => exact False.elim hstands
  | refused f =>
    cases hstands.2 with
    | unknown hnone =>
      rw [hnone] at hopen
      cases hopen
    | unready hunready =>
      rw [hready] at hunready
      cases hunready
    | conflict hconflict =>
      obtain ⟨uri', g, hrunning, -⟩ := hconflict.halted
      rw [hempty] at hrunning
      cases hrunning

/-- A run that was asked to stop hands over a log only if it had looked for that before. -/
theorem Sound.cleared_of_deliver (h : s.Sound) (hplay : play capture s events = some t)
    (hdeliver : .deliver g ∈ events) {run : Verification} (hrun : s.run? g = some run)
    (hasked : run.stopAsked = true) : ∃ log, run.phase = .cleared log := by
  obtain ⟨before, later, rfl⟩ := List.append_of_mem hdeliver
  rw [play_append] at hplay
  obtain ⟨u, hbefore, hlater⟩ := Option.bind_eq_some_iff.mp hplay
  obtain ⟨⟨v, notices⟩, hstep, -⟩ := Option.bind_eq_some_iff.mp hlater
  obtain ⟨hmem, hg⟩ := mem_of_run? hrun
  cases moves_of_step hstep with
  | @deliver _ run' log hrun' hphase =>
    have hdelivers : s.Delivers capture run.generation log :=
      ⟨u, _, run', notices, Reaches.start.play hbefore, hg ▸ hrun', hphase, hg ▸ hstep, rfl⟩
    exact ⟨log, ((h.delivers_iff hmem log).mp hdelivers).cleared_of_asked hasked⟩

/-- A request that was refused at once. What has happened besides are the sections of runs,
which would have come to the same without it: it has touched neither the register nor a
document, and has asked no run to stop. -/
structure RefusedAtOnce (capture : Heap.Capture) (s : State) (uri : String) (manual : Bool)
    (events : List Event) (f : Failure) (t : State) : Prop where
  cause : f = .unknownDocument uri ∧ s.debugger.task? uri = none ∨
    f = .backendUnavailable ∧ s.ready = false
  asRuns : AsRuns capture s events ⟨.verify uri manual, .done (.refused f)⟩ s.holder t
  unasked : ∀ g, (t.run? g).map (·.stopAsked) = (s.run? g).map (·.stopAsked)
  still : (∀ e ∈ events, e.isRun = false) →
    t = { s with clients := s.clients ++ [⟨.verify uri manual, .done (.refused f)⟩] }

/-- A request that was refused for a run that did not stop in time. -/
structure RefusedForConflict (capture : Heap.Capture) (s : State) (uri : String) (manual : Bool)
    (events : List Event) (t : State) : Prop where
  /-- No document has changed but by the logs that runs have handed over. -/
  documents : OnlyHandedOver capture s (.verify uri manual) events t
  /-- Those that were asked to stop by then had looked for that before. -/
  passed : ∀ before later u, events = before ++ later →
    play capture (s.arrive (.verify uri manual)) before = some u →
    ∀ g run, u.run? g = some run → run.stopAsked = true → .deliver g ∈ later →
    ∃ log, run.phase = .cleared log
  /-- The run that was registered was asked to stop and aborted, and there was no other. -/
  registered : ∃ r ∈ t.runs, s.running = [r.entry] ∧ r.stopAsked = true ∧
    .expire s.clients.length r.generation ∈ events ∧ r.phase.isLive = false
  emptied : t.running = []
  /-- The next request for an open document can be served, and is never refused. -/
  next : ∀ uri' manual', (t.debugger.task? uri').isSome → t.ready = true →
    t.Starts capture uri' manual' ∧
    ∀ events' u v, Serving capture t uri' manual' events' u →
      u.clients[t.clients.length]? = some ⟨.verify uri' manual', .done v⟩ → v = .started

theorem AsRuns.refusedAtOnce {f : Failure}
    (h : AsRuns capture s events ⟨.verify uri manual, .done (.refused f)⟩ s.holder t)
    (hcause : f = .unknownDocument uri ∧ s.debugger.task? uri = none ∨
      f = .backendUnavailable ∧ s.ready = false) :
    RefusedAtOnce capture s uri manual events f t := by
  refine ⟨hcause, h, fun g => ?_, fun hstill => ?_⟩
  · obtain ⟨s', hby, rfl⟩ := h.byRuns
    exact hby.asked g
  · obtain ⟨s', hplay, rfl⟩ := h
    have hnone : events.filter Event.isRun = [] :=
      List.filter_eq_nil_iff.mpr fun e he => by simp [hstill e he]
    rw [hnone] at hplay
    cases hplay
    rfl

theorem Conflicting.refusedForConflict (h : Conflicting s events t) (hsound : s.Sound)
    (hs : Serving capture s uri manual events t)
    (hall : OnlyHandedOver capture s (.verify uri manual) events t) :
    RefusedForConflict capture s uri manual events t := by
  obtain ⟨ht, hcontinues⟩ := hsound.continues hs.reaches
  refine ⟨hall, ?_, ?_, h.emptied, fun uri' manual' hopen hready => ⟨?_, ?_⟩⟩
  · rintro before later u rfl hbefore g run hrun hasked hdeliver
    have hplayed := hs.played
    rw [play_append, hbefore] at hplayed
    have hu := Serving.sound ⟨fun e he => hs.alone e (List.mem_append_left _ he), hbefore⟩ hsound
    exact hu.cleared_of_deliver hplayed hdeliver hrun hasked
  · obtain ⟨uri', g, hrunning, ⟨r, hr, hg, hasked, hlive⟩, haborted⟩ := h.halted
    have hregistered : (uri', g) ∈ s.running := hrunning ▸ List.mem_singleton_self _
    obtain ⟨r', hr', hentry⟩ := List.mem_map.mp
      (hcontinues.known _ (hsound.register.entries _ hregistered))
    obtain rfl := ht.register.run_unique hr hr' (hg.trans (congrArg Prod.snd hentry).symm)
    exact ⟨r, hr, hentry ▸ hrunning, hasked, hg ▸ haborted, hlive⟩
  · exact starts_of_free capture manual' h.free h.emptied hopen hready
  · exact fun events' u v hserving hdone => hserving.eq_started ht h.emptied hopen hready hdone

/-- In every state that can be reached, a request for a new verification that is served alone
and refused has touched nothing, or it was refused for a conflict. Then the register is empty
and its run aborted, and no document has changed but by logs that were on their way. -/
theorem refused_served_alone {debugger : Debugger} {ready : Bool} {f : Failure}
    (hreach : Reaches capture { debugger, ready } s)
    (h : Serving capture s uri manual events t)
    (hrefused : t.clients[s.clients.length]? = some ⟨.verify uri manual, .done (.refused f)⟩) :
    RefusedAtOnce capture s uri manual events f t ∨
      f = .verificationConflict ∧ RefusedForConflict capture s uri manual events t := by
  have hsound := sound_of_reaches hreach
  obtain ⟨stage, hclients, hstands⟩ := h.stands hsound
  obtain rfl : stage = .done (.refused f) := by simpa [hclients] using hrefused
  obtain ⟨hall, hrefusal⟩ := hstands
  cases hrefusal with
  | unknown hnone hruns => exact .inl (hruns.refusedAtOnce (.inl ⟨rfl, hnone⟩))
  | unready hunready hruns => exact .inl (hruns.refusedAtOnce (.inr ⟨rfl, hunready⟩))
  | conflict hconflict => exact .inr ⟨rfl, hconflict.refusedForConflict hsound h hall⟩

/-- The log of one document is on its way while the verifier works on another one. -/
def verifyInTurn : List Event :=
  [.operate (.openFile "a.vpr"), .operate (.openFile "b.vpr"),
    .arrive (.verify "a.vpr" true), .consider 0, .acquire 0, .take 0, .conclude 0, .reset 0,
    .number 0, .spawn 0, .begin 0, .yield 0 (.ok lateLog), .unregister 0, .check 0,
    .arrive (.verify "b.vpr" true), .consider 1, .acquire 1, .take 1, .conclude 1, .reset 1,
    .number 1, .spawn 1, .begin 1]

/-- The run of the other document is stopped and does not end in time. Meanwhile the log is
handed over. -/
def refuseInConflict : List Event :=
  [.consider 2, .acquire 2, .take 2, .signal 2 1, .deliver 0, .expire 2 1, .conclude 2]

theorem refused_after_verifyInTurn : ∃ s t u, Reaches Heap.capture {} s ∧
    Serving Heap.capture s "a.vpr" true refuseInConflict t ∧
    t.clients[2]? = some ⟨.verify "a.vpr" true, .done (.refused .verificationConflict)⟩ ∧
    RefusedForConflict Heap.capture s "a.vpr" true refuseInConflict t ∧
    (t.debugger.task? "a.vpr").bind Task.run? = some (Run.ofRecords lateLog.steps) ∧
    Serving Heap.capture s "c.vpr" true [.consider 2] u ∧
    RefusedAtOnce Heap.capture s "c.vpr" true [.consider 2] (.unknownDocument "c.vpr") u := by
  have hplayed : ∃ s t u, play Heap.capture {} verifyInTurn = some s ∧ s.clients.length = 2 ∧
      play Heap.capture (s.arrive (.verify "a.vpr" true)) refuseInConflict = some t ∧
      t.clients[2]? = some ⟨.verify "a.vpr" true, .done (.refused .verificationConflict)⟩ ∧
      (t.debugger.task? "a.vpr").bind Task.run? = some (Run.ofRecords lateLog.steps) ∧
      play Heap.capture (s.arrive (.verify "c.vpr" true)) [.consider 2] = some u ∧
      u.clients[2]? =
        some ⟨.verify "c.vpr" true, .done (.refused (.unknownDocument "c.vpr"))⟩ :=
    ⟨_, _, _, rfl, rfl, rfl, rfl, rfl, rfl, rfl⟩
  obtain ⟨s, t, u, hplay, hlength, hconflict, hdone, hstored, hunknown, hdone'⟩ := hplayed
  have hreach : Reaches Heap.capture {} s := Reaches.start.play hplay
  have hserving : Serving Heap.capture s "a.vpr" true refuseInConflict t := by
    refine ⟨?_, hconflict⟩
    simp [hlength, refuseInConflict, Event.Serves, Event.mover, Event.isRun]
  have hserving' : Serving Heap.capture s "c.vpr" true [.consider 2] u := by
    refine ⟨?_, hunknown⟩
    simp [hlength, Event.Serves, Event.mover]
  rw [← hlength] at hdone hdone'
  refine ⟨s, t, u, hreach, hserving, hlength ▸ hdone, ?_, hstored, hserving', ?_⟩
  · refine (refused_served_alone hreach hserving hdone).elim (fun honce => ?_) And.right
    rcases honce.cause with ⟨hf, -⟩ | ⟨hf, -⟩ <;> cases hf
  · refine (refused_served_alone hreach hserving' hdone').resolve_right fun hother => ?_
    cases hother.1

end State

end ProofStepper.Scheduler
