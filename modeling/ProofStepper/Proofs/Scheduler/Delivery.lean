import ProofStepper.Proofs.Scheduler.Calls

/-!
# Logs that come late

A run that has taken itself out of the register is found there by no request any more, and
only later it looks whether it was asked to stop and hands over its log. So its log may
come after a new verification has begun, or after a stop of its document was answered. The
same goes for a run that another client has taken out and has not asked to stop yet. No
other run that was started before hands over a log then, and each of these may do it.
-/
namespace ProofStepper.Scheduler

namespace Verification

/-- The run may still hand over the log: it has not learnt that it shall stop, and if it has
its answer, then it is this log. -/
def Offers (r : Verification) (log : ProofLog) : Prop :=
  match r.phase with
  | .spawned | .calling => r.stopAsked = false
  | .returned o | .unregistered o => o = .ok log ∧ r.stopAsked = false
  | .cleared found => found = log
  | _ => False

/-- The run has taken itself out of the register, and its log is not handed over yet. -/
def hasLeft (r : Verification) : Bool :=
  match r.phase with
  | .unregistered _ | .cleared _ => true
  | _ => false

variable {r : Verification} {log : ProofLog}

theorem Offers.atWork_or_left (h : r.Offers log) :
    r.isAtWork = true ∧ r.stopAsked = false ∨ r.hasLeft = true := by
  obtain ⟨_, _, _, phase, asked⟩ := r
  cases phase with
  | spawned => exact .inl ⟨rfl, h⟩
  | calling => exact .inl ⟨rfl, h⟩
  | returned o => exact .inl ⟨by simpa [isAtWork] using h.2, h.2⟩
  | unregistered o => exact .inr rfl
  | cleared found => exact .inr rfl
  | _ => cases h

theorem Offers.of_asked (h : Offers { r with stopAsked := true } log) : r.Offers log := by
  obtain ⟨_, _, _, phase, asked⟩ := r
  cases phase with
  | spawned => cases h
  | calling => cases h
  | returned o => cases h.2
  | unregistered o => cases h.2
  | _ => exact h

theorem Offers.of_abort (h : Offers { r with phase := r.phase.abort } log) : r.Offers log := by
  obtain ⟨_, _, _, phase, asked⟩ := r
  cases phase with
  | spawned => cases h
  | calling => cases h
  | _ => exact h

end Verification

/-- The client has taken a run out of the register and has not asked it to stop: it will do
that yet, or it waits for the run to end by itself. -/
def Client.spares (c : Client) (g : Nat) : Bool :=
  match c.stage with
  | .stopping hs => hs.any fun h => h.generation = g ∧ h.state = .taken
  | .awaiting h => h = g
  | _ => false

namespace State
variable {capture : Heap.Capture} {s t u : State} {e : Event} {i g : Nat} {r : Verification}
  {log : ProofLog}

/-- Some client has taken a run out of the register and has not asked it to stop. -/
def spares (s : State) (g : Nat) : Bool := s.clients.any fun c => c.spares g

theorem Sound.spares_of_minds (h : s.Sound) (hr : r ∈ s.runs) (hfree : r.stopAsked = false)
    {c : Client} (hc : s.clients[i]? = some c) (hminds : c.minds r.generation = true) :
    c.spares r.generation = true := by
  obtain ⟨request, stage⟩ := c
  cases stage with
  | stopping hs =>
    obtain ⟨halt, hmem, hg, hopen⟩ := Client.minds_stopping_iff.mp hminds
    cases hstate : halt.state with
    | taken => exact List.any_eq_true.mpr ⟨halt, hmem, by simp [hg, hstate]⟩
    | asked timeoutMs =>
      have hasked := h.warned.stopAsked h.register hc hmem hstate hr hg.symm
      rw [hfree] at hasked
      cases hasked
    | answered b =>
      rw [hstate] at hopen
      cases hopen
  | awaiting g => exact hminds
  | _ => cases hminds

/-- A run that offers a log has left the register by itself, or stands in it, or is spared
by the client that has taken it out. -/
theorem Sound.place_of_offers (h : s.Sound) (hr : r ∈ s.runs) (hoffers : r.Offers log) :
    r.hasLeft = true ∨ r.entry ∈ s.running ∨ s.spares r.generation = true := by
  rcases hoffers.atWork_or_left with ⟨hwork, hfree⟩ | hleft
  · rcases h.minded r hr hwork with hmem | ⟨i, c, hc, hminds⟩
    · exact .inr (.inl hmem)
    · refine .inr (.inr (List.any_eq_true.mpr ⟨c, List.mem_of_getElem? hc, ?_⟩))
      exact h.spares_of_minds hr hfree hc hminds
  · exact .inl hleft

/-- A run that is known stays known, does not come back into the register, and offers no
log that it did not offer before. -/
structure Continues (s t : State) : Prop where
  known : ∀ e ∈ s.known, e ∈ t.known
  registered : ∀ e ∈ t.running, e ∈ s.known → e ∈ s.running
  offers : ∀ r ∈ t.runs, r.entry ∈ s.known → ∀ log, r.Offers log →
    ∃ r₀ ∈ s.runs, r₀.entry = r.entry ∧ r₀.Offers log

theorem Continues.refl (s : State) : Continues s s :=
  ⟨fun _ he => he, fun _ he _ => he, fun r hr _ _ ho => ⟨r, hr, rfl, ho⟩⟩

theorem Continues.trans (h : Continues s t) (h' : Continues t u) : Continues s u where
  known e he := h'.known e (h.known e he)
  registered e he hknown := h.registered e (h'.registered e he (h.known e hknown)) hknown
  offers r hr hknown log ho := by
    obtain ⟨r', hr', hentry', ho'⟩ := h'.offers r hr (h.known _ hknown) log ho
    obtain ⟨r₀, hr₀, hentry, ho₀⟩ := h.offers r' hr' (hentry' ▸ hknown) log ho'
    exact ⟨r₀, hr₀, hentry.trans hentry', ho₀⟩

theorem Continues.of_eq (hruns : t.runs = s.runs) (hrunning : t.running.Sublist s.running) :
    Continues s t := by
  refine ⟨fun e he => ?_, fun e he _ => hrunning.subset he, fun r hr _ _ ho => ?_⟩
  · rwa [State.known, hruns]
  · exact ⟨r, hruns ▸ hr, rfl, ho⟩

theorem Continues.updateRun {change : Verification → Verification}
    (hruns : t.runs = (s.updateRun g change).runs) (hrunning : t.running.Sublist s.running)
    (hentry : ∀ r, (change r).entry = r.entry)
    (hoffers : ∀ r ∈ s.runs, r.generation = g → ∀ log, (change r).Offers log → r.Offers log) :
    Continues s t := by
  refine ⟨fun e he => ?_, fun e he _ => hrunning.subset he, fun r hr _ log ho => ?_⟩
  · rw [State.known, hruns]
    change e ∈ (s.updateRun g change).known
    rwa [s.known_updateRun g hentry]
  · rw [hruns] at hr
    obtain ⟨r₀, hr₀, rfl⟩ := mem_updateRun.mp hr
    refine ⟨r₀, hr₀, ?_, ?_⟩
    · split
      · exact (hentry r₀).symm
      · rfl
    · split at ho
      · rename_i hg
        exact hoffers r₀ hr₀ hg log ho
      · exact ho

/-- A run comes to another phase. It is the only one with its generation. -/
theorem Continues.setPhase (hr : s.Register) {run : Verification} (hrun : s.run? g = some run)
    {phase : Phase} (hruns : t.runs = (s.setPhase g phase).runs)
    (hrunning : t.running.Sublist s.running)
    (hoffers : ∀ log, Verification.Offers { run with phase } log → run.Offers log) :
    Continues s t := by
  refine Continues.updateRun hruns hrunning (fun _ => rfl) fun r hmem hg log ho => ?_
  obtain ⟨hown, hgeneration⟩ := mem_of_run? hrun
  obtain rfl := hr.run_unique hmem hown (hg.trans hgeneration.symm)
  exact hoffers log ho

theorem Continues.spawn (hr : s.Register) {uri : String} {manual : Bool}
    (hc : s.clients[i]? = some ⟨.verify uri manual, .numbered g⟩) :
    Continues s (spawn s i uri manual g) := by
  obtain ⟨-, hnew⟩ := hr.chosen i _ g hc rfl
  refine ⟨fun e he => ?_, fun e he hknown => ?_, fun r hmem hknown log ho => ?_⟩
  · change e ∈ (s.runs ++ [_]).map Verification.entry
    rw [List.map_append]
    exact List.mem_append_left _ he
  · change e ∈ s.running.filter _ ++ [(uri, g)] at he
    rw [List.mem_append, List.mem_singleton] at he
    rcases he with he | rfl
    · exact List.mem_of_mem_filter he
    · exact absurd rfl (hnew _ hknown)
  · change r ∈ s.runs ++ [_] at hmem
    rw [List.mem_append, List.mem_singleton] at hmem
    rcases hmem with hmem | rfl
    · exact ⟨r, hmem, rfl, ho⟩
    · exact absurd rfl (hnew _ hknown)

theorem Continues.move (hr : s.Register) (hm : Moves capture s e t) : Continues s t := by
  cases hm with
  | arrive => exact .of_eq rfl (List.Sublist.refl _)
  | refuseUnknown => exact .of_eq rfl (List.Sublist.refl _)
  | refuseUnready => exact .of_eq rfl (List.Sublist.refl _)
  | queue => exact .of_eq rfl (List.Sublist.refl _)
  | acquire => exact .of_eq rfl (List.Sublist.refl _)
  | takeHolding => exact .of_eq rfl (List.nil_sublist _)
  | takeAll => exact .of_eq rfl (List.nil_sublist _)
  | takeUri => exact .of_eq rfl List.filter_sublist
  | takeAwaiting => exact .of_eq rfl List.filter_sublist
  | takeNothing => exact .of_eq rfl List.filter_sublist
  | signalOver => exact .of_eq rfl (List.Sublist.refl _)
  | signal =>
    exact .updateRun rfl (List.Sublist.refl _) (fun _ => rfl) fun _ _ _ _ ho => ho.of_asked
  | observe => exact .of_eq rfl (List.Sublist.refl _)
  | observeAwaited => exact .of_eq rfl (List.Sublist.refl _)
  | expire =>
    exact .updateRun rfl (List.Sublist.refl _) (fun _ => rfl) fun _ _ _ _ ho => ho.of_abort
  | clear => exact .of_eq rfl (List.Sublist.refl _)
  | conflict => exact .of_eq rfl (List.Sublist.refl _)
  | tell => exact .of_eq rfl (List.Sublist.refl _)
  | fail => exact .of_eq rfl (List.Sublist.refl _)
  | reset => exact .of_eq rfl (List.Sublist.refl _)
  | number => exact .of_eq rfl (List.Sublist.refl _)
  | spawn hc => exact .spawn hr hc
  | begin hrun hphase =>
    refine .setPhase hr hrun rfl (List.Sublist.refl _) fun log ho => ?_
    simpa [Verification.Offers, hphase] using ho
  | yield o hrun hphase =>
    refine .setPhase hr hrun rfl (List.Sublist.refl _) fun log ho => ?_
    simpa [Verification.Offers, hphase] using ho.2
  | crash hrun => exact .setPhase hr hrun rfl (List.Sublist.refl _) fun _ ho => False.elim ho
  | unregister hrun hphase =>
    refine .setPhase hr (run?_self hrun) rfl List.filter_sublist fun log ho => ?_
    simpa [Verification.Offers, hphase] using ho
  | dismiss hrun =>
    exact .setPhase hr (run?_self hrun) rfl (List.Sublist.refl _) fun _ ho => False.elim ho
  | pass hrun hphase hfree =>
    refine .setPhase hr (run?_self hrun) rfl (List.Sublist.refl _) fun log ho => ?_
    simpa [Verification.Offers, hphase, hfree] using ho
  | deliver hrun =>
    exact .setPhase hr (run?_self hrun) rfl (List.Sublist.refl _) fun _ ho => False.elim ho
  | operate => exact .of_eq rfl (List.Sublist.refl _)
  | setReady => exact .of_eq rfl (List.Sublist.refl _)

/-- All that a later state keeps of the runs known before. -/
theorem Sound.continues (hs : s.Sound) (h : Reaches capture s t) : t.Sound ∧ Continues s t := by
  induction h with
  | start => exact ⟨hs, .refl s⟩
  | step _ hstep ih =>
    have hm := moves_of_step hstep
    exact ⟨ih.1.move hm, ih.2.trans (.move ih.1.register hm)⟩

/-- In some state that can still be reached the run hands over the log, which the debugger
then stores if the document is open. -/
def Delivers (capture : Heap.Capture) (s : State) (g : Nat) (log : ProofLog) : Prop :=
  ∃ u v run notices, Reaches capture s u ∧ u.run? g = some run ∧ run.phase = .cleared log ∧
    step capture u (.deliver g) = some (v, notices) ∧
    v.debugger = (u.debugger.complete run.uri log).state

theorem Delivers.of_step {notices : List Notice} (hstep : step capture s e = some (t, notices))
    (h : t.Delivers capture g log) : s.Delivers capture g log := by
  obtain ⟨u, v, run, notices', hreach, hrun⟩ := h
  exact ⟨u, v, run, notices', .trans (.step .start hstep) hreach, hrun⟩

theorem step_run {run : Verification} (hrun : s.run? g = some run) (e : Event)
    (he : e.mover = .run g) : step capture s e = stepRun s run e := by
  simp only [step, he, hrun, Option.bind_some]

theorem run?_updateRun (s : State) (g : Nat) {change : Verification → Verification}
    (hchange : ∀ r, (change r).generation = r.generation) (g' : Nat) :
    (s.updateRun g change).run? g' =
      (s.run? g').map fun r => if r.generation = g then change r else r := by
  have hsame : ((fun r : Verification => decide (r.generation = g')) ∘
      fun r => if r.generation = g then change r else r) =
      fun r => decide (r.generation = g') := by
    funext r
    simp only [Function.comp_apply]
    split
    · rw [hchange]
    · rfl
  simp only [run?, updateRun, List.find?_map, hsame]

theorem run?_setPhase {run : Verification} (hrun : s.run? g = some run) (phase : Phase) :
    (s.setPhase g phase).run? g = some { run with phase } := by
  rw [setPhase, run?_updateRun, hrun, Option.map_some, if_pos (mem_of_run? hrun).2]
  exact fun _ => rfl

theorem delivers_of_cleared {run : Verification} (hrun : s.run? g = some run)
    (hphase : run.phase = .cleared log) : s.Delivers capture g log := by
  refine ⟨s, (deliver s run log).1, run, (deliver s run log).2, .start, hrun, hphase, ?_, rfl⟩
  simp only [step_run hrun (.deliver g) rfl, stepRun, hphase]

theorem delivers_of_unregistered {run : Verification} (hrun : s.run? g = some run)
    (hphase : run.phase = .unregistered (.ok log)) (hfree : run.stopAsked = false) :
    s.Delivers capture g log := by
  have hg : run.generation = g := (mem_of_run? hrun).2
  have hstep : step capture s (.check g) = some (s.setPhase g (.cleared log), []) := by
    simp [step_run hrun (.check g) rfl, stepRun, hphase, check, hfree, hg]
  exact .of_step hstep (delivers_of_cleared (run?_setPhase hrun _) rfl)

theorem delivers_of_returned {run : Verification} (hrun : s.run? g = some run)
    (hphase : run.phase = .returned (.ok log)) (hfree : run.stopAsked = false) :
    s.Delivers capture g log := by
  have hg : run.generation = g := (mem_of_run? hrun).2
  have hstep : step capture s (.unregister g) = some (unregister s run (.ok log), []) := by
    simp only [step_run hrun (.unregister g) rfl, stepRun, hphase]
  have hleft : (unregister s run (.ok log)).run? g =
      some { run with phase := .unregistered (.ok log) } := by
    have hset := run?_setPhase hrun (.unregistered (.ok log))
    rw [← hg] at hset ⊢
    exact hset
  exact .of_step hstep (delivers_of_unregistered hleft rfl hfree)

theorem delivers_of_calling {run : Verification} (hrun : s.run? g = some run)
    (hphase : run.phase = .calling) (hfree : run.stopAsked = false) :
    s.Delivers capture g log := by
  have hstep : step capture s (.yield g (.ok log)) =
      some (s.setPhase g (.returned (.ok log)), []) := by
    simp only [step_run hrun (.yield g (.ok log)) rfl, stepRun, hphase]
  exact .of_step hstep (delivers_of_returned (run?_setPhase hrun _) rfl hfree)

theorem delivers_of_offers {run : Verification} (hrun : s.run? g = some run)
    (ho : run.Offers log) : s.Delivers capture g log := by
  unfold Verification.Offers at ho
  split at ho
  · rename_i hphase
    have hstep : step capture s (.begin g) = some (s.setPhase g .calling, []) := by
      simp only [step_run hrun (.begin g) rfl, stepRun, hphase]
    exact .of_step hstep (delivers_of_calling (run?_setPhase hrun _) rfl ho)
  · rename_i hphase
    exact delivers_of_calling hrun hphase ho
  · rename_i o hphase
    rw [ho.1] at hphase
    exact delivers_of_returned hrun hphase ho.2
  · rename_i o hphase
    rw [ho.1] at hphase
    exact delivers_of_unregistered hrun hphase ho.2
  · rename_i found hphase
    rw [ho] at hphase
    exact delivers_of_cleared hrun hphase
  · cases ho

/-- A run can still hand over the logs that it offers, and no others. -/
theorem Sound.delivers_iff (h : s.Sound) (hr : r ∈ s.runs) (log : ProofLog) :
    s.Delivers capture r.generation log ↔ r.Offers log := by
  constructor
  · rintro ⟨u, v, run, notices, hreach, hrun, hphase, -⟩
    obtain ⟨hu, hcontinues⟩ := h.continues hreach
    obtain ⟨hmem, hg⟩ := mem_of_run? hrun
    obtain ⟨later, hlater, hentry⟩ := List.mem_map.mp
      (hcontinues.known _ (List.mem_map_of_mem hr))
    obtain rfl := hu.register.run_unique hmem hlater (hg.trans (congrArg Prod.snd hentry).symm)
    have hoffers : run.Offers log := by simp [Verification.Offers, hphase]
    obtain ⟨r₀, hr₀, hentry₀, ho⟩ := hcontinues.offers run hmem
      (hentry ▸ List.mem_map_of_mem hr) log hoffers
    obtain rfl := h.register.run_unique hr hr₀ (congrArg Prod.snd (hentry₀.trans hentry)).symm
    exact ho
  · exact delivers_of_offers (h.register.run?_eq hr)

/-- A run that was started before: before a new verification that has begun, or before a stop
of its document, which has been answered, took the run of that document. -/
inductive Superseded (capture : Heap.Capture) (start : State) : State → Verification → Prop
  | restarted {t : State} {r : Verification} {i : Nat} {uri : String} {manual : Bool} :
      Reaches capture start t → r ∈ t.runs →
      t.clients[i]? = some ⟨.verify uri manual, .started⟩ → Superseded capture start t r
  | stopped {s s' t : State} {r : Verification} {i : Nat} {notices : List Notice} :
      Reaches capture start s → r.entry ∈ s.known →
      s.clients[i]? = some (.arrived (.stop r.uri)) →
      step capture s (.take i) = some (s', notices) → Reaches capture s' t → r ∈ t.runs →
      t.clients[i]? = some ⟨.stop r.uri, .done (.told true)⟩ → Superseded capture start t r

variable {debugger : Debugger} {ready : Bool}

theorem Superseded.reaches {start : State} (h : Superseded capture start t r) :
    Reaches capture start t ∧ r ∈ t.runs := by
  cases h with
  | restarted hreach hr => exact ⟨hreach, hr⟩
  | stopped hreach _ _ hstep hlater hr => exact ⟨(hreach.step hstep).trans hlater, hr⟩

theorem Superseded.not_registered (h : Superseded capture { debugger, ready } t r) :
    r.entry ∉ t.running := by
  have hsound := sound_of_reaches h.reaches.1
  cases h with
  | restarted _ _ hc =>
    rw [hsound.register.cleared _ _ hc rfl Stage.noConfusion]
    exact List.not_mem_nil
  | stopped hreach hknown hc hstep hlater =>
    intro hmem
    have hm := moves_of_step hstep
    have hs := sound_of_reaches hreach
    obtain ⟨-, hcontinues⟩ := (hs.move hm).continues hlater
    have hnow := hcontinues.registered _ hmem ((Continues.move hs.register hm).known _ hknown)
    simp only [step, Event.mover, hc, Option.bind_some, stepClient, takeUri] at hstep
    cases hstep
    have hne := (List.mem_filter.mp hnow).2
    simp [Verification.entry] at hne

/-- A run that was started before can hand over a log still exactly if it offers this log
and has taken itself out of the register, or another client has taken it out and has not
asked it to stop. -/
theorem superseded_delivers_iff (h : Superseded capture { debugger, ready } t r)
    (log : ProofLog) : t.Delivers capture r.generation log ↔
      r.Offers log ∧ (r.hasLeft = true ∨ t.spares r.generation = true) := by
  obtain ⟨hreach, hr⟩ := h.reaches
  have hsound := sound_of_reaches hreach
  rw [hsound.delivers_iff hr]
  constructor
  · intro ho
    refine ⟨ho, ?_⟩
    rcases hsound.place_of_offers hr ho with hleft | hregistered | hspared
    · exact .inl hleft
    · exact absurd hregistered h.not_registered
    · exact .inr hspared
  · exact fun ho => ho.1

def lateLog : ProofLog := { steps := [{ isShown := true }] }

/-- A document is verified, and the run takes itself out of the register with its answer. -/
def verifyUntilLeft : List Event :=
  [.operate (.openFile "a.vpr"),
    .arrive (.verify "a.vpr" true), .consider 0, .acquire 0, .take 0, .conclude 0, .reset 0,
    .number 0, .spawn 0, .begin 0, .yield 0 (.ok lateLog), .unregister 0]

/-- The log of a run comes after the next verification of its document has begun, and also
after a stop of the document was answered. -/
theorem late_log_after_restart_or_stop :
    (∃ t r v, Superseded Heap.capture {} t r ∧
      (t.clients.map (·.request)) = [.verify "a.vpr" true, .verify "a.vpr" true] ∧
      (t.debugger.task? "a.vpr").bind Task.run? = none ∧
      t.Delivers Heap.capture r.generation lateLog ∧ Reaches Heap.capture t v ∧
      (v.debugger.task? "a.vpr").bind Task.run? = some (Run.ofRecords lateLog.steps)) ∧
    ∃ t r, Superseded Heap.capture {} t r ∧
      (t.clients.map (·.request)) = [.verify "a.vpr" true, .stop "a.vpr"] ∧
      t.Delivers Heap.capture r.generation lateLog := by
  constructor
  · have hplayed : ∃ t r v, play Heap.capture {} (verifyUntilLeft ++
        [.arrive (.verify "a.vpr" true), .consider 1, .acquire 1, .take 1, .conclude 1,
          .reset 1]) = some t ∧ r ∈ t.runs ∧
        t.clients[1]? = some ⟨.verify "a.vpr" true, .started⟩ ∧
        (t.clients.map (·.request)) = [.verify "a.vpr" true, .verify "a.vpr" true] ∧
        (t.debugger.task? "a.vpr").bind Task.run? = none ∧
        r.Offers lateLog ∧ r.hasLeft = true ∧
        play Heap.capture t [.check 0, .deliver 0] = some v ∧
        (v.debugger.task? "a.vpr").bind Task.run? = some (Run.ofRecords lateLog.steps) :=
      ⟨_, _, _, rfl, .head _, rfl, rfl, rfl, ⟨rfl, rfl⟩, rfl, rfl, rfl⟩
    obtain ⟨t, r, v, hplay, hr, hc, hrequests, hnone, ho, hleft, hlater, hstored⟩ := hplayed
    have hsuperseded : Superseded Heap.capture {} t r :=
      .restarted (Reaches.start.play hplay) hr hc
    exact ⟨t, r, v, hsuperseded, hrequests, hnone,
      (superseded_delivers_iff hsuperseded lateLog).mpr ⟨ho, .inl hleft⟩,
      Reaches.start.play hlater, hstored⟩
  · have hplayed : ∃ s s' t r notices,
        play Heap.capture {} (verifyUntilLeft ++ [.arrive (.stop "a.vpr")]) = some s ∧
        r.entry ∈ s.known ∧ s.clients[1]? = some (.arrived (.stop r.uri)) ∧
        step Heap.capture s (.take 1) = some (s', notices) ∧
        play Heap.capture s' [.conclude 1] = some t ∧ r ∈ t.runs ∧
        t.clients[1]? = some ⟨.stop r.uri, .done (.told true)⟩ ∧
        (t.clients.map (·.request)) = [.verify "a.vpr" true, .stop "a.vpr"] ∧
        r.Offers lateLog ∧ r.hasLeft = true :=
      ⟨_, _, _, _, _, rfl, .head _, rfl, rfl, rfl, .head _, rfl, rfl, ⟨rfl, rfl⟩, rfl⟩
    obtain ⟨s, s', t, r, notices, hplay, hknown, hc, hstep, hlater, hr, hdone, hrequests, ho,
      hleft⟩ := hplayed
    have hsuperseded : Superseded Heap.capture {} t r :=
      .stopped (Reaches.start.play hplay) hknown hc hstep (Reaches.start.play hlater) hr hdone
    exact ⟨t, r, hsuperseded, hrequests,
      (superseded_delivers_iff hsuperseded lateLog).mpr ⟨ho, .inl hleft⟩⟩

end State

end ProofStepper.Scheduler
