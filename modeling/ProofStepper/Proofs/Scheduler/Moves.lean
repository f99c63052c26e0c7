import ProofStepper.Scheduler.Step

/-!
# What an event does

The moves of the scheduler one by one: for each event that is possible, in which stage or
phase its client or run is before, and the state afterwards. What holds in every state
that can be reached is shown by looking at these moves.
-/
namespace ProofStepper.Scheduler

/-- The moves of an event. -/
inductive Moves (capture : Heap.Capture) (s : State) : Event → State → Prop
  | arrive (request : Request) :
      Moves capture s (.arrive request) { s with clients := s.clients ++ [.arrived request] }
  | refuseUnknown {i : Nat} {uri : String} {manual : Bool} :
      s.clients[i]? = some (.arrived (.verify uri manual)) → s.debugger.task? uri = none →
      Moves capture s (.consider i) (s.setStage i (.done (.refused (.unknownDocument uri))))
  | refuseUnready {i : Nat} {uri : String} {manual : Bool} :
      s.clients[i]? = some (.arrived (.verify uri manual)) → s.ready = false →
      Moves capture s (.consider i) (s.setStage i (.done (.refused .backendUnavailable)))
  | queue {i : Nat} {uri : String} {manual : Bool} :
      s.clients[i]? = some (.arrived (.verify uri manual)) →
      (s.debugger.task? uri).isSome → s.ready = true →
      Moves capture s (.consider i) (s.setStage i .waiting)
  | acquire {i : Nat} {request : Request} : s.clients[i]? = some ⟨request, .waiting⟩ →
      s.holder = none →
      Moves capture s (.acquire i) { s.setStage i .holding with holder := some i }
  | takeHolding {i : Nat} {request : Request} : s.clients[i]? = some ⟨request, .holding⟩ →
      Moves capture s (.take i) (takeAll s i)
  | takeAll {i : Nat} : s.clients[i]? = some (.arrived .stopAll) →
      Moves capture s (.take i) (takeAll s i)
  | takeUri {i : Nat} {uri : String} : s.clients[i]? = some (.arrived (.stop uri)) →
      Moves capture s (.take i) ((takeUri s uri).1.setStage i
        (.stopping ((s.running.lookup uri).toList.map fun generation => { generation })))
  | takeAwaiting {i : Nat} {uri : String} {g : Nat} :
      s.clients[i]? = some (.arrived (.wait uri)) → s.running.lookup uri = some g →
      Moves capture s (.take i) ((takeUri s uri).1.setStage i (.awaiting g))
  | takeNothing {i : Nat} {uri : String} :
      s.clients[i]? = some (.arrived (.wait uri)) → s.running.lookup uri = none →
      Moves capture s (.take i) ((takeUri s uri).1.setStage i (.done (.told true)))
  | signalOver {i g : Nat} {request : Request} {hs : List Halt} :
      s.clients[i]? = some ⟨request, .stopping hs⟩ → haltState? hs g = some .taken →
      s.isOver g = true →
      Moves capture s (.signal i g) (s.setStage i (.stopping (setHalt hs g (.answered true))))
  | signal {i g : Nat} {request : Request} {hs : List Halt} :
      s.clients[i]? = some ⟨request, .stopping hs⟩ → haltState? hs g = some .taken →
      s.isOver g = false →
      Moves capture s (.signal i g)
        ((s.updateRun g fun r => { r with stopAsked := true }).setStage i
          (.stopping (setHalt hs g (.asked s.debugger.settings.stopTimeoutMs))))
  | observe {i g timeoutMs : Nat} {request : Request} {hs : List Halt} :
      s.clients[i]? = some ⟨request, .stopping hs⟩ →
      haltState? hs g = some (.asked timeoutMs) → s.isOver g = true →
      Moves capture s (.observe i g) (s.setStage i (.stopping (setHalt hs g (.answered true))))
  | observeAwaited {i g : Nat} {request : Request} : s.clients[i]? = some ⟨request, .awaiting g⟩ →
      s.isOver g = true →
      Moves capture s (.observe i g) (s.setStage i (.done (.told (awaited s g))))
  | expire {i g timeoutMs : Nat} {request : Request} {hs : List Halt} {run : Verification} :
      s.clients[i]? = some ⟨request, .stopping hs⟩ →
      haltState? hs g = some (.asked timeoutMs) → s.run? g = some run → run.phase.isOver = false →
      Moves capture s (.expire i g) (expire s i run hs timeoutMs).1
  | clear {i : Nat} {uri : String} {manual : Bool} {hs : List Halt} :
      s.clients[i]? = some ⟨.verify uri manual, .stopping hs⟩ → conclusion? hs = some true →
      Moves capture s (.conclude i) (s.setStage i .cleared)
  | conflict {i : Nat} {uri : String} {manual : Bool} {hs : List Halt} :
      s.clients[i]? = some ⟨.verify uri manual, .stopping hs⟩ → conclusion? hs = some false →
      Moves capture s (.conclude i) (s.release i (.refused .verificationConflict))
  | tell {i : Nat} {request : Request} {hs : List Halt} {b : Bool} :
      s.clients[i]? = some ⟨request, .stopping hs⟩ →
      (∀ uri manual, request ≠ .verify uri manual) → conclusion? hs = some b →
      Moves capture s (.conclude i) (s.setStage i (.done (.told b)))
  | fail {i : Nat} {uri : String} {manual : Bool} {f : Failure} :
      s.clients[i]? = some ⟨.verify uri manual, .cleared⟩ →
      (s.debugger.start uri).answer = .error f →
      Moves capture s (.reset i) (s.release i (.refused f))
  | reset {i : Nat} {uri : String} {manual : Bool} :
      s.clients[i]? = some ⟨.verify uri manual, .cleared⟩ →
      (s.debugger.start uri).answer = .ok () →
      Moves capture s (.reset i)
        { s.setStage i .started with debugger := (s.debugger.start uri).state }
  | number {i : Nat} {request : Request} : s.clients[i]? = some ⟨request, .started⟩ →
      Moves capture s (.number i) { s.setStage i (.numbered s.nextGeneration) with
        nextGeneration := s.nextGeneration + 1 }
  | spawn {i g : Nat} {uri : String} {manual : Bool} :
      s.clients[i]? = some ⟨.verify uri manual, .numbered g⟩ →
      Moves capture s (.spawn i) (spawn s i uri manual g)
  | begin {g : Nat} {run : Verification} : s.run? g = some run → run.phase = .spawned →
      Moves capture s (.begin g) (s.setPhase g .calling)
  | yield {g : Nat} {run : Verification} (o : Outcome) : s.run? g = some run →
      run.phase = .calling → Moves capture s (.yield g o) (s.setPhase g (.returned o))
  | crash {g : Nat} {run : Verification} : s.run? g = some run → run.phase = .calling →
      Moves capture s (.crash g) (s.setPhase g .crashed)
  | unregister {g : Nat} {run : Verification} {o : Outcome} : s.run? g = some run →
      run.phase = .returned o → Moves capture s (.unregister g) (unregister s run o)
  | dismiss {g : Nat} {run : Verification} {o : Outcome} : s.run? g = some run →
      run.phase = .unregistered o → run.stopAsked = true ∨ (∃ text, o = .error text) →
      Moves capture s (.check g) (s.setPhase run.generation .finished)
  | pass {g : Nat} {run : Verification} {log : ProofLog} : s.run? g = some run →
      run.phase = .unregistered (.ok log) → run.stopAsked = false →
      Moves capture s (.check g) (s.setPhase run.generation (.cleared log))
  | deliver {g : Nat} {run : Verification} {log : ProofLog} : s.run? g = some run →
      run.phase = .cleared log → Moves capture s (.deliver g) (deliver s run log).1
  | operate (op : Operation) :
      Moves capture s (.operate op) { s with debugger := (s.debugger.perform capture op).state }
  | setReady (b : Bool) : Moves capture s (.setReady b) { s with ready := b }

variable {capture : Heap.Capture} {s t : State} {e : Event} {notices : List Notice}

theorem moves_of_stepClient {i : Nat} {c : Client} (hc : s.clients[i]? = some c)
    (he : e.mover = .client i) (h : stepClient s i c e = some (t, notices)) :
    Moves capture s e t := by
  obtain ⟨request, stage⟩ := c
  cases e with
  | consider j =>
    cases he
    cases stage with
    | arrived =>
      cases request with
      | verify uri manual =>
        simp only [stepClient, consider] at h
        split at h
        · rename_i hnone
          cases h
          exact .refuseUnknown hc (Option.isNone_iff_eq_none.mp hnone)
        split at h
        · rename_i hready
          cases h
          exact .refuseUnready hc (by simpa using hready)
        · rename_i hopen hready
          cases h
          exact .queue hc (by simpa [Option.isSome_iff_ne_none] using hopen) (by simpa using hready)
      | _ => cases h
    | _ => cases h
  | acquire j =>
    cases he
    cases stage with
    | waiting =>
      simp only [stepClient] at h
      split at h
      · rename_i hholder
        cases h
        exact .acquire hc hholder
      · cases h
    | _ => cases h
  | take j =>
    cases he
    cases stage with
    | holding =>
      cases h
      exact .takeHolding hc
    | arrived =>
      cases request with
      | verify uri manual => cases h
      | stopAll =>
        cases h
        exact .takeAll hc
      | stop uri =>
        cases h
        exact .takeUri hc
      | wait uri =>
        cases hlookup : s.running.lookup uri with
        | some g =>
          simp only [stepClient, takeUri, hlookup] at h
          cases h
          exact .takeAwaiting hc hlookup
        | none =>
          simp only [stepClient, takeUri, hlookup] at h
          cases h
          exact .takeNothing hc hlookup
    | _ => cases h
  | signal j g =>
    cases he
    cases stage with
    | stopping hs =>
      simp only [stepClient] at h
      split at h
      · rename_i htaken
        cases h
        unfold Scheduler.signal
        split
        · rename_i hover
          exact .signalOver hc htaken hover
        · rename_i hover
          exact .signal hc htaken (by simpa using hover)
      · cases h
    | _ => cases h
  | observe j g =>
    cases he
    cases stage with
    | stopping hs =>
      simp only [stepClient] at h
      split at h
      · rename_i hasked hover
        cases h
        exact .observe hc hasked hover
      · cases h
    | awaiting g' =>
      simp only [stepClient] at h
      split at h
      · rename_i hover
        obtain ⟨rfl, hover⟩ := hover
        cases h
        exact .observeAwaited hc hover
      · cases h
    | _ => cases h
  | expire j g =>
    cases he
    cases stage with
    | stopping hs =>
      cases hrun : s.run? g with
      | none => simp [stepClient, hrun] at h
      | some run =>
        simp only [stepClient, hrun] at h
        split at h
        · rename_i hasked hover
          have hmoved := congrArg Prod.fst (Option.some.inj h)
          subst hmoved
          exact .expire hc hasked hrun hover
        · cases h
    | _ => cases h
  | conclude j =>
    cases he
    cases stage with
    | stopping hs =>
      simp only [stepClient] at h
      split at h
      · cases h
      · rename_i hconclusion
        cases h
        exact .clear hc hconclusion
      · rename_i hconclusion
        cases h
        exact .conflict hc hconclusion
      · rename_i b hconclusion hclear hconflict
        cases h
        refine .tell hc (fun uri manual hrequest => ?_) hconclusion
        cases b with
        | true => exact hclear uri manual hrequest rfl
        | false => exact hconflict uri manual hrequest rfl
    | _ => cases h
  | reset j =>
    cases he
    cases stage with
    | cleared =>
      cases request with
      | verify uri manual =>
        simp only [stepClient] at h
        split at h
        · rename_i hanswer
          cases h
          exact .fail hc hanswer
        · rename_i hanswer
          cases h
          exact .reset hc hanswer
      | _ => cases h
    | _ => cases h
  | number j =>
    cases he
    cases stage with
    | started =>
      cases h
      exact .number hc
    | _ => cases h
  | spawn j =>
    cases he
    cases stage with
    | numbered g =>
      cases request with
      | verify uri manual =>
        cases h
        exact .spawn hc
      | _ => cases h
    | _ => cases h
  | _ => cases he

theorem moves_of_stepRun {g : Nat} {run : Verification} (hrun : s.run? g = some run)
    (he : e.mover = .run g) (h : stepRun s run e = some (t, notices)) : Moves capture s e t := by
  cases e with
  | begin g' =>
    cases he
    simp only [stepRun] at h
    split at h
    · rename_i hphase
      cases h
      exact .begin hrun hphase
    · cases h
  | yield g' o =>
    cases he
    simp only [stepRun] at h
    split at h
    · rename_i hphase
      cases h
      exact .yield o hrun hphase
    · cases h
  | crash g' =>
    cases he
    simp only [stepRun] at h
    split at h
    · rename_i hphase
      cases h
      exact .crash hrun hphase
    · cases h
  | unregister g' =>
    cases he
    simp only [stepRun] at h
    split at h
    · rename_i hphase
      cases h
      exact .unregister hrun hphase
    · cases h
  | check g' =>
    cases he
    simp only [stepRun] at h
    split at h
    · rename_i o hphase
      unfold check at h
      split at h
      · rename_i hasked
        cases h
        exact .dismiss hrun hphase (.inl hasked)
      · rename_i hasked
        cases o with
        | ok log =>
          cases h
          exact .pass hrun hphase (by simpa using hasked)
        | error text =>
          cases h
          exact .dismiss hrun hphase (.inr ⟨text, rfl⟩)
    · cases h
  | deliver g' =>
    cases he
    simp only [stepRun] at h
    split at h
    · rename_i log hphase
      cases h
      exact .deliver hrun hphase
    · cases h
  | _ => cases he

/-- Every step is one of the moves. -/
theorem moves_of_step (h : step capture s e = some (t, notices)) : Moves capture s e t := by
  unfold step at h
  split at h
  · rename_i i he
    obtain ⟨c, hc, hstep⟩ := Option.bind_eq_some_iff.mp h
    exact moves_of_stepClient hc he hstep
  · rename_i g he
    obtain ⟨run, hrun, hstep⟩ := Option.bind_eq_some_iff.mp h
    exact moves_of_stepRun hrun he hstep
  · split at h
    · rename_i request _
      cases h
      exact .arrive request
    · rename_i op _
      cases h
      exact .operate op
    · rename_i b _
      cases h
      exact .setReady b
    · cases h

/-- What holds at first and is kept by every move holds in every state that is reached. -/
theorem Reaches.induct {start : State} {P : State → Prop} (h : Reaches capture start t)
    (first : P start) (moved : ∀ s e t, Moves capture s e t → P s → P t) : P t := by
  induction h with
  | start => exact first
  | step _ hstep ih => exact moved _ _ _ (moves_of_step hstep) ih

theorem Reaches.trans {start : State} (h : Reaches capture start s) (h' : Reaches capture s t) :
    Reaches capture start t := by
  induction h' with
  | start => exact h
  | step _ hstep ih => exact ih.step hstep

/-- The state after events that are all possible. -/
def play (capture : Heap.Capture) (s : State) : List Event → Option State
  | [] => some s
  | e :: later => (step capture s e).bind fun move => play capture move.1 later

theorem Reaches.play {start : State} (h : Reaches capture start s) {events : List Event}
    (hp : play capture s events = some t) : Reaches capture start t := by
  induction events generalizing s with
  | nil =>
    cases hp
    exact h
  | cons e later ih =>
    obtain ⟨⟨middle, notices⟩, hstep, hlater⟩ := Option.bind_eq_some_iff.mp hp
    exact ih (h.step hstep) hlater

end ProofStepper.Scheduler
