import ProofStepper.Proofs.Scheduler.Effort
import ProofStepper.Proofs.Scheduler.Verdicts
import ProofStepper.Scheduler.Timeline

/-!
# Every request is answered

As long as some client is not done, the next event of a timeline is possible, or the
verifier works for some run and will be done at a time that is known. Either lowers what is
left to do, which the fuel of the timeline covers, so that the timeline plays until all
clients are done.
-/
namespace ProofStepper.Scheduler

namespace Timeline
variable {capture : Heap.Capture} {t : Timeline} {e : Event} {i : Nat} {c : Client}
  {run : Verification}

/-- The timelines that come about, with any event at any time. -/
inductive Reached (capture : Heap.Capture) : Timeline → Prop
  | start (debugger : Debugger) (ready : Bool) (verifier : Verifier) (now : Nat) :
      Reached capture { state := { debugger, ready }, verifier, now }
  | move {t : Timeline} (e : Event) : Reached capture t → Reached capture (t.move capture e).1
  | wait {t : Timeline} {time : Nat} : Reached capture t → t.now ≤ time →
      Reached capture { t with now := time }
  | replan {t : Timeline} (verifier : Verifier) : Reached capture t →
      Reached capture { t with verifier }

/-- The state is one that the scheduler comes to, every call that is under way is known, and
the requests cover what is left to do and what has been waited for. -/
structure Kept (capture : Heap.Capture) (t : Timeline) : Prop where
  reaches : ∃ debugger ready, Reaches capture { debugger, ready } t.state
  called : ∀ r ∈ t.state.runs, r.phase = .calling →
    ∃ call ∈ t.calls, call.generation = r.generation
  covered : t.state.effort + t.calls.length + t.deadlines.length ≤ 16 * t.state.clients.length

theorem Kept.sound (h : t.Kept capture) : t.state.Sound := by
  obtain ⟨debugger, ready, hreach⟩ := h.reaches
  exact State.sound_of_reaches hreach

theorem Kept.narrow (h : t.Kept capture) : t.state.Narrow := by
  obtain ⟨debugger, ready, hreach⟩ := h.reaches
  exact State.narrow_of_reaches hreach

theorem Kept.told (h : t.Kept capture) : t.state.Told := by
  obtain ⟨debugger, ready, hreach⟩ := h.reaches
  exact State.told_of_reaches hreach

@[simp] theorem record_state (t : Timeline) (e : Event) : (t.record e).state = t.state := by
  cases e with
  | begin g =>
    simp only [record]
    split <;> rfl
  | _ => rfl

@[simp] theorem record_now (t : Timeline) (e : Event) : (t.record e).now = t.now := by
  cases e with
  | begin g =>
    simp only [record]
    split <;> rfl
  | _ => rfl

theorem record_calls (t : Timeline) (e : Event) :
    ∃ new, (t.record e).calls = t.calls ++ new := by
  cases e with
  | begin g =>
    simp only [record]
    split
    · exact ⟨[], (List.append_nil _).symm⟩
    · exact ⟨_, rfl⟩
  | _ => exact ⟨[], (List.append_nil _).symm⟩

/-- An event sets one time at most that somebody will wait for, and its cost covers that. -/
theorem sum_record (t : Timeline) (e : Event) {ofCall : Call → Nat} {ofDeadline : Deadline → Nat}
    (hcall : ∀ c, ofCall c ≤ 1) (hdeadline : ∀ d, ofDeadline d ≤ 1) :
    ((t.record e).calls.map ofCall).sum + ((t.record e).deadlines.map ofDeadline).sum ≤
      (t.calls.map ofCall).sum + (t.deadlines.map ofDeadline).sum + (e.cost - 1) := by
  cases e with
  | begin g =>
    simp only [record]
    split
    · omega
    · rename_i run _
      have hnew := hcall ⟨g, t.verifier.work run.uri, t.now + (t.verifier.work run.uri).delayMs⟩
      simp only [List.map_append, List.sum_append, List.map_cons, List.map_nil, List.sum_cons,
        List.sum_nil, Event.cost]
      omega
  | signal c g =>
    have hnew := hdeadline ⟨c, g, t.now + t.state.debugger.settings.stopTimeoutMs⟩
    simp only [record, List.map_append, List.sum_append, List.map_cons, List.map_nil, List.sum_cons,
      List.sum_nil, Event.cost]
    omega
  | _ => exact Nat.le_add_right _ _

theorem move_of_step {s : State} {notices : List Notice}
    (h : step capture t.state e = some (s, notices)) :
    (t.move capture e).1 = { t with state := s }.record e := by
  rw [move, h]

theorem move_of_none (h : step capture t.state e = none) : (t.move capture e).1 = t := by
  rw [move, h]

end Timeline

/-- A run that calls the verifier did so before, or begins to. -/
theorem State.calling_before {capture : Heap.Capture} {s t : State} {e : Event}
    {r : Verification} (hm : Moves capture s e t) (hr : r ∈ t.runs) (hphase : r.phase = .calling) :
    (∃ r₀ ∈ s.runs, r₀.phase = .calling ∧ r₀.generation = r.generation) ∨
      e = .begin r.generation := by
  have hset : ∀ (g : Nat) (phase : Phase), phase ≠ .calling → r ∈ (s.setPhase g phase).runs →
      ∃ r₀ ∈ s.runs, r₀.phase = .calling ∧ r₀.generation = r.generation := by
    intro g phase hother hr
    obtain ⟨r₀, hr₀, rfl⟩ := mem_updateRun.mp hr
    split at hphase
    · exact absurd hphase hother
    · rename_i hne
      rw [if_neg hne]
      exact ⟨r₀, hr₀, hphase, rfl⟩
  cases hm with
  | @signal i g =>
    obtain ⟨r₀, hr₀, rfl⟩ := mem_updateRun.mp hr
    refine .inl ⟨r₀, hr₀, ?_⟩
    split at hphase <;> simp_all
  | @expire i g _ _ _ run =>
    obtain ⟨r₀, hr₀, rfl⟩ := mem_updateRun.mp hr
    refine .inl ⟨r₀, hr₀, ?_⟩
    split at hphase
    · rename_i hsame
      rw [if_pos hsame]
      cases hold : r₀.phase <;> simp [hold, Phase.abort] at hphase
    · rename_i hne
      rw [if_neg hne]
      exact ⟨hphase, rfl⟩
  | @spawn i g uri manual =>
    rcases List.mem_append.mp hr with hold | hnew
    · exact .inl ⟨r, hold, hphase, rfl⟩
    · rw [List.mem_singleton.mp hnew] at hphase
      cases hphase
  | @begin g =>
    obtain ⟨r₀, hr₀, rfl⟩ := mem_updateRun.mp hr
    by_cases hsame : r₀.generation = g
    · rw [if_pos hsame]
      exact .inr (by rw [← hsame])
    · rw [if_neg hsame] at hphase ⊢
      exact .inl ⟨r₀, hr₀, hphase, rfl⟩
  | yield => exact .inl (hset _ _ Phase.noConfusion hr)
  | crash => exact .inl (hset _ _ Phase.noConfusion hr)
  | unregister => exact .inl (hset _ _ Phase.noConfusion hr)
  | dismiss => exact .inl (hset _ _ Phase.noConfusion hr)
  | pass => exact .inl (hset _ _ Phase.noConfusion hr)
  | deliver => exact .inl (hset _ _ Phase.noConfusion hr)
  | _ => exact .inl ⟨r, hr, hphase, rfl⟩

namespace Timeline
variable {capture : Heap.Capture} {t : Timeline} {e : Event} {i : Nat} {c : Client}
  {run : Verification}

theorem Kept.move (h : t.Kept capture) (e : Event) : (t.move capture e).1.Kept capture := by
  cases hstep : step capture t.state e with
  | none => rwa [move_of_none hstep]
  | some result =>
    obtain ⟨s, notices⟩ := result
    have hm := moves_of_step hstep
    obtain ⟨debugger, ready, hreach⟩ := h.reaches
    obtain ⟨new, hcalls⟩ := record_calls { t with state := s } e
    rw [move_of_step hstep]
    refine ⟨⟨debugger, ready, ?_⟩, fun r hr hphase => ?_, ?_⟩
    · rw [record_state]
      exact hreach.step hstep
    · rw [record_state] at hr
      rcases State.calling_before hm hr hphase with ⟨r₀, hr₀, hphase₀, hg⟩ | rfl
      · obtain ⟨call, hcall, hgeneration⟩ := h.called r₀ hr₀ hphase₀
        refine ⟨call, ?_, hgeneration.trans hg⟩
        rw [hcalls]
        exact List.mem_append_left _ hcall
      · have hrun : s.run? r.generation = some r := by
          have hsound := h.sound.move hm
          exact hsound.register.run?_eq hr
        simp only [record, hrun]
        exact ⟨_, List.mem_append_right _ (List.mem_singleton_self _), rfl⟩
    · have hspends := State.Spends.move h.sound.register h.narrow hm
      have hrecord := sum_record { t with state := s } e (fun _ => Nat.le_refl 1)
        fun _ => Nat.le_refl 1
      have hcovered := h.covered
      unfold State.Spends at hspends
      simp only [List.map_const', List.sum_replicate, nsmul_eq_mul, Nat.cast_id, mul_one] at hrecord
      simp only [record_state]
      omega

theorem Reached.kept (h : t.Reached capture) : t.Kept capture := by
  induction h with
  | start debugger ready =>
    refine ⟨⟨debugger, ready, .start⟩, fun r hr => ?_, Nat.le_refl 0⟩
    cases hr
  | move e _ ih => exact ih.move e
  | wait _ _ ih => exact ⟨ih.reaches, ih.called, ih.covered⟩
  | replan verifier _ ih => exact ⟨ih.reaches, ih.called, ih.covered⟩

/-- What comes next for the one run that a client stops is possible. -/
theorem haltEvent?_possible {request : Request} {halt : Halt}
    (he : t.haltEvent? i halt = some e) :
    e.mover = .client i ∧ (stepClient t.state i ⟨request, .stopping [halt]⟩ e).isSome := by
  obtain ⟨g, state⟩ := halt
  have hstate : haltState? [⟨g, state⟩] g = some state := by simp [haltState?]
  cases state with
  | taken =>
    cases he
    refine ⟨rfl, ?_⟩
    simp only [stepClient, hstate, Option.isSome_some]
  | asked timeoutMs =>
    simp only [haltEvent?] at he
    split at he
    · rename_i hover
      cases he
      refine ⟨rfl, ?_⟩
      simp only [stepClient, hstate, hover, Option.isSome_some]
    · rename_i hunder
      split at he
      · cases he
        refine ⟨rfl, ?_⟩
        cases hrun : t.state.run? g with
        | none => simp [State.isOver, hrun] at hunder
        | some run =>
          have hphase : run.phase.isOver = false := by
            simpa [State.isOver, hrun] using hunder
          simp only [stepClient, hrun, hstate, hphase, Option.isSome_some]
      · cases he
  | answered b => cases he

theorem clientEvent?_possible (hs : t.state.Sound) (hn : t.state.Narrow)
    (hc : t.state.clients[i]? = some c) (he : t.clientEvent? i c = some e) :
    e.mover = .client i ∧ (stepClient t.state i c e).isSome := by
  have hproper := hs.turns.proper i c hc
  obtain ⟨request, stage⟩ := c
  cases stage with
  | arrived =>
    cases request with
    | wait uri =>
      cases he
      refine ⟨rfl, ?_⟩
      simp only [stepClient, takeUri]
      cases t.state.running.lookup uri <;> rfl
    | _ =>
      cases he
      exact ⟨rfl, rfl⟩
  | waiting =>
    simp only [clientEvent?] at he
    split at he
    · rename_i hfree
      cases he
      refine ⟨rfl, ?_⟩
      simp only [stepClient, Option.isNone_iff_eq_none.mp hfree, Option.isSome_some]
    · cases he
  | holding =>
    cases he
    exact ⟨rfl, rfl⟩
  | stopping hs' =>
    simp only [clientEvent?] at he
    split at he
    · rename_i hconclusion
      cases he
      refine ⟨rfl, ?_⟩
      obtain ⟨b, hb⟩ := Option.isSome_iff_exists.mp hconclusion
      simp only [stepClient, hb]
      split <;> simp_all
    · obtain ⟨halt, hmem, hevent⟩ := List.exists_of_findSome?_eq_some he
      obtain rfl := State.eq_singleton_of_mem (hn i request hs' hc) hmem
      exact haltEvent?_possible hevent
  | cleared =>
    cases he
    refine ⟨rfl, ?_⟩
    cases request with
    | verify uri manual =>
      simp only [stepClient]
      split <;> rfl
    | _ => cases hproper
  | started =>
    cases he
    exact ⟨rfl, rfl⟩
  | numbered g =>
    cases he
    refine ⟨rfl, ?_⟩
    cases request with
    | verify uri manual => rfl
    | _ => cases hproper
  | awaiting g =>
    simp only [clientEvent?] at he
    split at he
    · rename_i hover
      cases he
      refine ⟨rfl, ?_⟩
      simp only [stepClient, hover, and_self, if_true, Option.isSome_some]
    · cases he
  | done v => cases he

theorem runEvent?_possible (he : t.runEvent? run = some e) :
    e.mover = .run run.generation ∧ (stepRun t.state run e).isSome := by
  unfold runEvent? at he
  split at he
  · rename_i hphase
    cases he
    simp only [Event.mover, stepRun, hphase, Option.isSome_some, and_self]
  · rename_i hphase
    obtain ⟨call, -, hevent⟩ := Option.bind_eq_some_iff.mp he
    obtain ⟨ending, -, hending⟩ := Option.map_eq_some_iff.mp hevent
    cases ending with
    | outcome o =>
      cases hending
      simp only [Event.mover, stepRun, hphase, Option.isSome_some, and_self]
    | crash =>
      cases hending
      simp only [Event.mover, stepRun, hphase, Option.isSome_some, and_self]
  · rename_i hphase
    cases he
    simp only [Event.mover, stepRun, hphase, Option.isSome_some, and_self]
  · rename_i hphase
    cases he
    simp only [Event.mover, stepRun, hphase, Option.isSome_some, and_self]
  · rename_i hphase
    cases he
    simp only [Event.mover, stepRun, hphase, Option.isSome_some, and_self]
  all_goals cases he

theorem exists_of_firstClientEvent? {first : Nat} {clients : List Client}
    (he : t.firstClientEvent? first clients = some e) :
    ∃ j c, clients[j]? = some c ∧ t.clientEvent? (first + j) c = some e := by
  induction clients generalizing first with
  | nil => cases he
  | cons c rest ih =>
    simp only [firstClientEvent?] at he
    split at he
    · rename_i hevent
      cases he
      exact ⟨0, c, rfl, hevent⟩
    · obtain ⟨j, d, hd, hevent⟩ := ih he
      exact ⟨j + 1, d, hd, by rwa [show first + (j + 1) = first + 1 + j by omega]⟩

theorem clientEvent?_eq_none {first : Nat} {clients : List Client}
    (hnone : t.firstClientEvent? first clients = none) {j : Nat} (hc : clients[j]? = some c) :
    t.clientEvent? (first + j) c = none := by
  induction clients generalizing first j with
  | nil => cases hc
  | cons d rest ih =>
    simp only [firstClientEvent?] at hnone
    split at hnone
    · cases hnone
    · rename_i hevent
      cases j with
      | zero =>
        cases hc
        exact hevent
      | succ j =>
        have hlater := ih hnone hc
        rwa [show first + (j + 1) = first + 1 + j by omega]

theorem Kept.nextEvent?_possible (h : t.Kept capture) (he : t.nextEvent? = some e) :
    e.mover ≠ .other ∧ ∃ s notices, step capture t.state e = some (s, notices) := by
  have hpossible : e.mover ≠ .other ∧ (step capture t.state e).isSome := by
    unfold nextEvent? at he
    split at he
    · rename_i hevent
      cases he
      obtain ⟨j, c, hc, hown⟩ := exists_of_firstClientEvent? hevent
      rw [Nat.zero_add] at hown
      obtain ⟨hmover, hstep⟩ := clientEvent?_possible h.sound h.narrow hc hown
      exact ⟨by simp [hmover], by simp [step, hmover, hc, hstep]⟩
    · obtain ⟨run, hrun, hown⟩ := List.exists_of_findSome?_eq_some he
      obtain ⟨hmover, hstep⟩ := runEvent?_possible hown
      refine ⟨by simp [hmover], ?_⟩
      simp [step, hmover, h.sound.register.run?_eq hrun, hstep]
  obtain ⟨⟨s, notices⟩, hstep⟩ := Option.isSome_iff_exists.mp hpossible.2
  exact ⟨hpossible.1, s, notices, hstep⟩

/-- A call that is due has an end. -/
theorem due_of_ending? {work : Work} {disk : Disk} {uri : String} {stopAsked due : Bool}
    (h : work.ending? disk uri stopAsked due = none) : due = false := by
  by_contra hdue
  simp only [Bool.not_eq_false] at hdue
  subst hdue
  unfold Work.ending? at h
  split at h
  · split at h
    · cases h
    simp only [Bool.not_true, Bool.false_eq_true, if_false] at h
    split at h
    · cases h
    · split at h <;> cases h
  · split at h
    · cases h
    · split at h <;> cases h

theorem isOver_of_all (h : ∀ r ∈ t.state.runs, r.phase.isOver = true) (g : Nat) :
    t.state.isOver g = true := by
  unfold State.isOver
  cases hrun : t.state.run? g with
  | none => rfl
  | some run => exact h run (State.mem_of_run? hrun).1

/-- A run that cannot move is over, or waits for its call to end at a time that is yet to
come. -/
theorem Kept.runEvent?_eq_none (h : t.Kept capture) (hrun : run ∈ t.state.runs)
    (hnone : t.runEvent? run = none) :
    run.phase.isOver = true ∨
      ∃ call ∈ t.calls, call.generation = run.generation ∧ run.phase.isCalling = true ∧
        t.now < call.due := by
  cases hphase : run.phase with
  | calling =>
    obtain ⟨known, hknown, hg⟩ := h.called run hrun hphase
    have hfound : (t.calls.find? fun c => c.generation = run.generation).isSome :=
      List.find?_isSome.mpr ⟨known, hknown, decide_eq_true hg⟩
    obtain ⟨call, hcall⟩ := Option.isSome_iff_exists.mp hfound
    have hgeneration := List.find?_some hcall
    simp only [runEvent?, hphase, hcall, Option.bind_some, callEvent?,
      Option.map_eq_none_iff] at hnone
    have hdue := due_of_ending? hnone
    exact .inr ⟨call, List.mem_of_find?_eq_some hcall, by simpa using hgeneration, rfl,
      by simpa using hdue⟩
  | finished => exact .inl rfl
  | crashed => exact .inl rfl
  | aborted => exact .inl rfl
  | _ => simp [runEvent?, hphase] at hnone

/-- A client that has not come to a conclusion has a run that it has not answered for. -/
theorem exists_halt_of_conclusion? {hs : List Halt} (h : ¬ (conclusion? hs).isSome) :
    ∃ halt ∈ hs, halt.state.answer? = none := by
  by_contra hall
  push Not at hall
  refine h ?_
  rw [conclusion?, if_pos]
  · rfl
  · exact List.all_eq_true.mpr fun halt hmem => Option.isSome_iff_ne_none.mpr (hall halt hmem)

/-- Once all runs are over every client can move that is not done and need not wait for the
right to start a run. -/
theorem clientEvent?_isSome (hover : ∀ r ∈ t.state.runs, r.phase.isOver = true)
    (hdone : ∀ v, c.stage ≠ .done v) (hfree : c.stage = .waiting → t.state.holder = none) :
    (t.clientEvent? i c).isSome := by
  obtain ⟨request, stage⟩ := c
  cases stage with
  | arrived => cases request <;> rfl
  | waiting => simp [clientEvent?, hfree rfl]
  | stopping hs =>
    simp only [clientEvent?]
    split
    · rfl
    · rename_i hopen
      obtain ⟨halt, hmem, hstate⟩ := exists_halt_of_conclusion? hopen
      refine List.findSome?_isSome_iff.mpr ⟨halt, hmem, ?_⟩
      cases hnow : halt.state with
      | taken => simp [haltEvent?, hnow]
      | asked timeoutMs => simp [haltEvent?, hnow, isOver_of_all hover]
      | answered b =>
        rw [hnow] at hstate
        cases hstate
  | awaiting g => simp [clientEvent?, isOver_of_all hover]
  | done v => exact absurd rfl (hdone v)
  | _ => rfl

theorem exists_of_clientsDone_eq_false (h : t.clientsDone = false) :
    ∃ (i : Nat) (c : Client), t.state.clients[i]? = some c ∧ ∀ v, c.stage ≠ .done v := by
  obtain ⟨c, hmem, hstage⟩ := List.all_eq_false.mp h
  obtain ⟨i, hi⟩ := List.getElem?_of_mem hmem
  refine ⟨i, c, hi, fun v hv => hstage ?_⟩
  rw [hv]

/-- If nobody can move although some client is not done, a call is under way that will be
due. -/
theorem Kept.exists_call (h : t.Kept capture) (hdone : t.clientsDone = false)
    (hnone : t.nextEvent? = none) :
    ∃ r ∈ t.state.runs, r.phase.isCalling = true ∧
      ∃ call ∈ t.calls, call.generation = r.generation ∧ t.now < call.due := by
  unfold nextEvent? at hnone
  split at hnone
  · cases hnone
  rename_i hclients
  have hclient : ∀ {j : Nat} {d : Client}, t.state.clients[j]? = some d →
      t.clientEvent? j d = none := by
    intro j d hd
    have hevent := clientEvent?_eq_none hclients hd
    rwa [Nat.zero_add] at hevent
  by_contra hcalls
  have hover : ∀ r ∈ t.state.runs, r.phase.isOver = true := by
    intro r hr
    rcases h.runEvent?_eq_none hr (List.findSome?_eq_none_iff.mp hnone r hr) with
      hover | ⟨call, hcall, hg, hcalling, hdue⟩
    · exact hover
    · exact absurd ⟨r, hr, hcalling, call, hcall, hg, hdue⟩ hcalls
  have hidle : ∀ {j : Nat} {d : Client}, t.state.clients[j]? = some d →
      (∀ v, d.stage ≠ .done v) → (d.stage = .waiting → t.state.holder = none) → False := by
    intro j d hd hmore hfree
    have hsome := clientEvent?_isSome (i := j) hover hmore hfree
    rw [hclient hd] at hsome
    cases hsome
  have hfree : t.state.holder = none := by
    cases hholder : t.state.holder with
    | none => rfl
    | some j =>
      obtain ⟨d, hd, hholds⟩ := (h.sound.turns.holder j).mp hholder
      refine (hidle hd (fun v hv => ?_) fun hw => ?_).elim
      · simp [Client.holds, hv] at hholds
      · simp [Client.holds, hw] at hholds
  obtain ⟨i, c, hc, hmore⟩ := exists_of_clientsDone_eq_false hdone
  exact hidle hc hmore fun _ => hfree

theorem mem_of_earliest {times : List Nat} {time : Nat} (h : earliest times = some time) :
    time ∈ times := by
  induction times generalizing time with
  | nil => cases h
  | cons first rest ih =>
    simp only [earliest] at h
    split at h
    · cases h
      simp
    · rename_i other hother
      cases h
      rcases Nat.le_total first other with hle | hle
      · simp [Nat.min_eq_left hle]
      · rw [Nat.min_eq_right hle]
        exact List.mem_cons_of_mem _ (ih hother)

theorem earliest_isSome {times : List Nat} {time : Nat} (h : time ∈ times) :
    (earliest times).isSome := by
  cases times with
  | nil => cases h
  | cons first rest =>
    simp only [earliest]
    split <;> rfl

/-- The times that somebody may still wait for. -/
def timesAhead (t : Timeline) : Nat :=
  (t.calls.map fun c => if t.now < c.due then 1 else 0).sum +
    (t.deadlines.map fun d => if t.now < d.time then 1 else 0).sum

/-- What is left to do, and the times to wait for. -/
def effort (t : Timeline) : Nat := t.state.effort + t.timesAhead

theorem bit_le_one (p : Prop) [Decidable p] : (if p then 1 else 0) ≤ 1 := by
  split <;> omega

theorem Kept.effort_le (h : t.Kept capture) : t.effort ≤ 16 * t.state.clients.length := by
  have hcalls := List.sum_le_card_nsmul (t.calls.map fun c => if t.now < c.due then 1 else 0) 1
    (by simpa using fun c (_ : c ∈ t.calls) => bit_le_one (t.now < c.due))
  have hdeadlines :=
    List.sum_le_card_nsmul (t.deadlines.map fun d => if t.now < d.time then 1 else 0) 1
      (by simpa using fun d (_ : d ∈ t.deadlines) => bit_le_one (t.now < d.time))
  have hcovered := h.covered
  simp only [List.length_map, nsmul_eq_mul, Nat.cast_id, mul_one] at hcalls hdeadlines
  unfold effort timesAhead
  omega

theorem Kept.effort_move (h : t.Kept capture) {s : State} {notices : List Notice}
    (hstep : step capture t.state e = some (s, notices)) (he : e.mover ≠ .other) :
    (t.move capture e).1.effort < t.effort := by
  have hm := moves_of_step hstep
  have hspends := State.Spends.move h.sound.register h.narrow hm
  have hlength := congrArg List.length (State.requests_move hm he)
  have hcost := e.cost_pos he
  have hrecord := sum_record { t with state := s } e
    (fun c : Call => bit_le_one (t.now < c.due)) fun d : Deadline => bit_le_one (t.now < d.time)
  simp only [List.length_map] at hlength
  rw [move_of_step hstep]
  unfold State.Spends at hspends
  unfold effort timesAhead
  simp only [record_state, record_now] at hrecord ⊢
  omega

/-- Waiting for the next time leaves one time less to wait for. -/
theorem effort_wait {time : Nat} (h : t.nextTime none = some time) :
    t.now < time ∧ { t with now := time }.effort < t.effort := by
  have hearliest : earliest t.alarms = some time := by
    unfold nextTime at h
    split at h <;> simp_all
  obtain ⟨hmem, hahead⟩ := List.mem_filter.mp (mem_of_earliest hearliest)
  have hnow : t.now < time := by simpa using hahead
  have hbit : ∀ due : Nat, (if time < due then 1 else 0) ≤ if t.now < due then 1 else 0 := by
    intro due
    split
    · rename_i hdue
      exact Nat.le_of_eq (if_pos (Nat.lt_trans hnow hdue)).symm
    · exact Nat.zero_le _
  have hcalls := fun (c : Call) (_ : c ∈ t.calls) => hbit c.due
  have hdeadlines := fun (d : Deadline) (_ : d ∈ t.deadlines) => hbit d.time
  refine ⟨hnow, ?_⟩
  unfold effort timesAhead
  dsimp only
  have hself : (if time < time then 1 else 0) + 1 ≤ if t.now < time then 1 else 0 := by
    simp [hnow]
  rcases List.mem_append.mp hmem with hmem | hmem
  · obtain ⟨call, hcall, rfl⟩ := List.mem_map.mp hmem
    have hlower := sum_map_add_le hcalls (List.mem_filter.mp hcall).1 hself
    have hkept := List.sum_le_sum hdeadlines
    omega
  · obtain ⟨deadline, hdeadline, rfl⟩ := List.mem_map.mp hmem
    have hlower := sum_map_add_le hdeadlines (List.mem_filter.mp hdeadline).1 hself
    have hkept := List.sum_le_sum hcalls
    omega

/-- If nobody can move although some client is not done, there is a time to wait for. -/
theorem Kept.exists_nextTime (h : t.Kept capture) (hdone : t.clientsDone = false)
    (hnone : t.nextEvent? = none) : ∃ time, t.nextTime none = some time := by
  obtain ⟨r, hr, hcalling, call, hcall, hg, hdue⟩ := h.exists_call hdone hnone
  have halarm : call.due ∈ t.alarms := by
    refine List.mem_filter.mpr ⟨List.mem_append_left _ (List.mem_map_of_mem ?_), ?_⟩
    · refine List.mem_filter.mpr ⟨hcall, ?_⟩
      rw [hg, h.sound.register.run?_eq hr]
      exact hcalling
    · simpa using hdue
  obtain ⟨time, htime⟩ := Option.isSome_iff_exists.mp (earliest_isSome halarm)
  exact ⟨time, by simp only [nextTime, htime]⟩

/-- What a timeline comes to when it is played until all clients are done. -/
structure Ends (capture : Heap.Capture) (t u : Timeline) : Prop where
  reached : u.Reached capture
  done : u.clientsDone = true
  requests : u.state.clients.map (·.request) = t.state.clients.map (·.request)

theorem Reached.play_ends (h : t.Reached capture) {fuel : Nat} (hfuel : t.effort < fuel) :
    Ends capture t (t.play capture none fuel).1 := by
  induction fuel generalizing t with
  | zero => cases hfuel
  | succ fuel ih =>
    cases hdone : t.clientsDone with
    | true =>
      simp only [play, hdone, Option.isNone_none, Bool.and_self, if_true]
      exact ⟨h, hdone, rfl⟩
    | false =>
      simp only [play, hdone, Option.isNone_none, Bool.and_false, Bool.false_eq_true, if_false]
      cases hnext : t.nextEvent? with
      | some e =>
        obtain ⟨hmover, s, notices, hstep⟩ := h.kept.nextEvent?_possible hnext
        have hlower := h.kept.effort_move hstep hmover
        have hends := ih (h.move e) (by omega)
        refine ⟨hends.reached, hends.done, hends.requests.trans ?_⟩
        rw [move_of_step hstep, record_state]
        exact State.requests_move (moves_of_step hstep) hmover
      | none =>
        obtain ⟨time, htime⟩ := h.kept.exists_nextTime hdone hnext
        obtain ⟨hnow, hlower⟩ := effort_wait htime
        simp only [htime, if_neg (Nat.not_le.mpr hnow)]
        have hends := ih (h.wait (Nat.le_of_lt hnow)) (by omega)
        exact ⟨hends.reached, hends.done, hends.requests⟩

theorem Reached.effort_lt_fuel (h : t.Reached capture) : t.effort < t.fuel := by
  have hle := h.kept.effort_le
  unfold fuel
  omega

/-- A request has been served: it and all those before it came to their end, and the
verdict is that of its own client and fits it. -/
structure Served (capture : Heap.Capture) (t : Timeline) (request : Request)
    (reply : Reply Timeline Verdict) : Prop where
  reached : reply.state.Reached capture
  done : reply.state.clientsDone = true
  told : reply.state.state.clients[t.state.clients.length]? = some ⟨request, .done reply.answer⟩
  fits : reply.answer.Fits request

theorem exists_done_of_clientsDone (hdone : t.clientsDone = true)
    (hc : t.state.clients[i]? = some c) : ∃ v, c.stage = .done v := by
  have hstage := List.all_eq_true.mp hdone c (List.mem_of_getElem? hc)
  split at hstage
  · rename_i v hv
    exact ⟨v, hv⟩
  · cases hstage

/-- A timeline after a request has come in. -/
def arrive (t : Timeline) (request : Request) : Timeline :=
  { t with state := { t.state with clients := t.state.clients ++ [.arrived request] } }

theorem serve_eq (capture : Heap.Capture) (t : Timeline) (request : Request) :
    t.serve capture request =
      let played := (t.arrive request).play capture none (t.arrive request).fuel
      ⟨((played.1.state.clients.drop t.state.clients.length).map verdictOf).headD
        (.refused .verificationConflict), played.1, played.2⟩ := by
  simp only [serve, serveAll, arrive, List.map_cons, List.map_nil]

theorem Reached.serve (h : t.Reached capture) (request : Request) :
    Served capture t request (t.serve capture request) := by
  have harrived : (t.arrive request).Reached capture := h.move (.arrive request)
  obtain ⟨hreached, hdone, hrequests⟩ := harrived.play_ends harrived.effort_lt_fuel
  rw [serve_eq]
  generalize (t.arrive request).play capture none (t.arrive request).fuel = played
    at hreached hdone hrequests ⊢
  have hmap : (played.1.state.clients.drop t.state.clients.length).map (·.request) =
      [request] := by
    rw [List.map_drop, hrequests]
    simp [arrive, Client.arrived]
  obtain ⟨c, hlast, hrequest⟩ := List.map_eq_singleton_iff.mp hmap
  have hc : played.1.state.clients[t.state.clients.length]? = some c := by
    rw [← List.head?_drop, hlast, List.head?_cons]
  obtain ⟨v, hv⟩ := exists_done_of_clientsDone hdone hc
  obtain ⟨own, stage⟩ := c
  cases hv
  cases hrequest
  refine ⟨hreached, hdone, ?_, ?_⟩
  · simp only [hlast, hc, List.map_cons, List.map_nil, List.headD_cons, verdictOf]
  · simp only [hlast, List.map_cons, List.map_nil, List.headD_cons, verdictOf]
    exact hreached.kept.told _ _ _ hc

end Timeline

end ProofStepper.Scheduler
