import ProofStepper.Proofs.Scheduler.Warnings

/-!
# Calls that are under way

A run that is stopped or waited for has left the register, but its call may go on. For the
old runs of a new verification that does no harm, since the new run waits for them. A stop
or a wait that comes from elsewhere is not waited for, so its run can call the verifier
beside the next one. Apart from those runs one at most calls at a time.
-/
namespace ProofStepper.Scheduler

/-- The run has not got its answer from the verifier and still may. -/
def Phase.isLive : Phase → Bool
  | .spawned | .calling => true
  | _ => false

theorem Phase.isLive_of_isCalling {p : Phase} (h : p.isCalling = true) : p.isLive = true := by
  cases p with
  | calling => rfl
  | _ => cases h

/-- The run has not taken itself out of the register. One that has its answer and was asked
to stop does not count, since nobody waits for it any longer. -/
def Verification.isAtWork (r : Verification) : Bool :=
  match r.phase with
  | .spawned | .calling => true
  | .returned _ => !r.stopAsked
  | _ => false

theorem Verification.isAtWork_of_isLive {r : Verification} (h : r.phase.isLive = true) :
    r.isAtWork = true := by
  obtain ⟨_, _, _, phase, _⟩ := r
  cases phase with
  | spawned => rfl
  | calling => rfl
  | _ => cases h

theorem Verification.isAtWork_of_isOver {r : Verification} (h : r.phase.isOver = true) :
    r.isAtWork = false := by
  obtain ⟨_, _, _, phase, _⟩ := r
  cases phase with
  | finished => rfl
  | crashed => rfl
  | aborted => rfl
  | _ => cases h

theorem Verification.isAtWork_of_asked {r : Verification}
    (h : Verification.isAtWork { r with stopAsked := true } = true) : r.isAtWork = true := by
  obtain ⟨_, _, _, phase, _⟩ := r
  cases phase with
  | spawned => rfl
  | calling => rfl
  | _ => cases h

/-- Only a run that has its answer and was not asked to stop works on when it is aborted. -/
theorem Verification.isAtWork_of_abort {r : Verification}
    (h : Verification.isAtWork { r with phase := r.phase.abort } = true) :
    r.isAtWork = true ∧ r.stopAsked = false := by
  obtain ⟨_, _, _, phase, asked⟩ := r
  cases phase with
  | returned o => exact ⟨h, by simpa [isAtWork, Phase.abort] using h⟩
  | _ => cases h

/-- The client has taken a run out of the register and is not done with it. -/
def Client.minds (c : Client) (g : Nat) : Bool :=
  match c.stage with
  | .stopping hs => hs.any fun h => h.generation = g ∧ h.state.answer? = none
  | .awaiting h => h = g
  | _ => false

theorem Client.minds_stopping_iff {request : Request} {hs : List Halt} {g : Nat} :
    Client.minds ⟨request, .stopping hs⟩ g = true ↔
      ∃ h ∈ hs, h.generation = g ∧ h.state.answer? = none := by
  simp [Client.minds]

/-- Answering for one run leaves the others as they are. -/
theorem Client.minds_setHalt {request : Request} {hs : List Halt} {g g' : Nat} {state : HaltState}
    (h : Client.minds ⟨request, .stopping hs⟩ g' = true)
    (hopen : g' = g → state.answer? = none) :
    Client.minds ⟨request, .stopping (setHalt hs g state)⟩ g' = true := by
  obtain ⟨halt, hmem, hg, hstate⟩ := Client.minds_stopping_iff.mp h
  refine Client.minds_stopping_iff.mpr ⟨_, List.mem_map_of_mem hmem, ?_⟩
  split
  · rename_i heq
    exact ⟨hg, hopen (hg.symm.trans heq)⟩
  · exact ⟨hg, hstate⟩

theorem Client.minds_of_conclusion {request : Request} {hs : List Halt} {b : Bool}
    (h : conclusion? hs = some b) (g : Nat) : Client.minds ⟨request, .stopping hs⟩ g = false := by
  unfold conclusion? at h
  split at h
  · rename_i hall
    by_contra hminds
    obtain ⟨halt, hmem, -, hstate⟩ := Client.minds_stopping_iff.mp (by simpa using hminds)
    have hanswered := List.all_eq_true.mp hall halt hmem
    rw [hstate] at hanswered
    cases hanswered
  · cases h

namespace State
variable {capture : Heap.Capture} {s t : State} {e : Event} {i g : Nat} {c : Client}

theorem run?_self {run : Verification} (h : s.run? g = some run) :
    s.run? run.generation = some run := by
  rw [(mem_of_run? h).2, h]

/-- A run that is at work is in the register, or a client minds it. -/
def Minded (s : State) : Prop :=
  ∀ r ∈ s.runs, r.isAtWork = true →
    r.entry ∈ s.running ∨
      ∃ (i : Nat) (c : Client), s.clients[i]? = some c ∧ c.minds r.generation = true

theorem minded_initial (debugger : Debugger) (ready : Bool) : Minded { debugger, ready } := by
  intro r hr
  cases hr

/-- Every run at work in the second state was there and at work in the first one. -/
def AtWorkBefore (s t : State) : Prop :=
  ∀ r ∈ t.runs, r.isAtWork = true →
    ∃ r₀ ∈ s.runs, r₀.isAtWork = true ∧ r₀.entry = r.entry

theorem AtWorkBefore.of_eq (h : t.runs = s.runs) : AtWorkBefore s t :=
  fun r hr hwork => ⟨r, h ▸ hr, hwork, rfl⟩

theorem AtWorkBefore.updateRun {change : Verification → Verification}
    (hentry : ∀ r, (change r).entry = r.entry)
    (hwork : ∀ r ∈ s.runs, r.generation = g → (change r).isAtWork = true →
      r.isAtWork = true) :
    AtWorkBefore s (s.updateRun g change) := by
  intro r hr hnow
  obtain ⟨r₀, hr₀, rfl⟩ := mem_updateRun.mp hr
  refine ⟨r₀, hr₀, ?_, ?_⟩
  · split at hnow
    · rename_i hg
      exact hwork r₀ hr₀ hg hnow
    · exact hnow
  · split
    · exact (hentry r₀).symm
    · rfl

/-- A run moves on, and none that is at work leaves the register. -/
theorem Minded.proceed (h : s.Minded) (hclients : t.clients = s.clients)
    (hbefore : AtWorkBefore s t)
    (hrunning : ∀ r ∈ t.runs, r.isAtWork = true → r.entry ∈ s.running → r.entry ∈ t.running) :
    t.Minded := by
  intro r hr hwork
  obtain ⟨r₀, hr₀, hwork₀, hentry⟩ := hbefore r hr hwork
  have hgeneration : r₀.generation = r.generation := congrArg Prod.snd hentry
  rcases h r₀ hr₀ hwork₀ with hmem | hminded
  · exact .inl (hrunning r hr hwork (hentry ▸ hmem))
  · right
    rw [hclients, ← hgeneration]
    exact hminded

/-- A client comes to another stage. It goes on minding what it minded and minds the runs
that it takes out of the register. -/
theorem Minded.advance (h : s.Minded) (hc : s.clients[i]? = some c) {stage : Stage}
    (hclients : t.clients = (s.setStage i stage).clients) (hbefore : AtWorkBefore s t)
    (hrunning : ∀ r ∈ t.runs, r.entry ∈ s.running →
      r.entry ∈ t.running ∨ Client.minds ⟨c.request, stage⟩ r.generation = true)
    (hminds : ∀ r ∈ t.runs, r.isAtWork = true → c.minds r.generation = true →
      Client.minds ⟨c.request, stage⟩ r.generation = true) : t.Minded := by
  have hself : t.clients[i]? = some ⟨c.request, stage⟩ := by
    rw [hclients, getElem?_setStage_self hc]
  intro r hr hwork
  obtain ⟨r₀, hr₀, hwork₀, hentry⟩ := hbefore r hr hwork
  have hgeneration : r₀.generation = r.generation := congrArg Prod.snd hentry
  rcases h r₀ hr₀ hwork₀ with hmem | ⟨j, d, hd, hdminds⟩
  · rcases hrunning r hr (hentry ▸ hmem) with hkept | hnow
    · exact .inl hkept
    · exact .inr ⟨i, _, hself, hnow⟩
  · rw [hgeneration] at hdminds
    by_cases hj : j = i
    · subst hj
      rw [hc] at hd
      cases hd
      exact .inr ⟨j, _, hself, hminds r hr hwork hdminds⟩
    · refine .inr ⟨j, d, ?_, hdminds⟩
      rw [hclients, getElem?_setStage_of_ne s stage hj]
      exact hd

/-- A client that minds no run goes on without taking one. -/
theorem Minded.pass (h : s.Minded) (hc : s.clients[i]? = some c) {stage : Stage}
    (hclients : t.clients = (s.setStage i stage).clients) (hruns : t.runs = s.runs)
    (hrunning : t.running = s.running) (hminds : ∀ g, c.minds g = false) : t.Minded := by
  refine h.advance hc hclients (.of_eq hruns) (fun r _ hmem => .inl (hrunning ▸ hmem))
    fun r _ _ hr => ?_
  rw [hminds] at hr
  cases hr

theorem Minded.arrive (h : s.Minded) (request : Request) :
    Minded { s with clients := s.clients ++ [.arrived request] } := by
  intro r hr hwork
  rcases h r hr hwork with hmem | ⟨i, c, hc, hminds⟩
  · exact .inl hmem
  · exact .inr ⟨i, c, getElem?_arrive.mpr (.inl hc), hminds⟩

/-- A client that takes all runs out of the register minds them. -/
theorem Minded.takeAll (h : s.Minded) (hc : s.clients[i]? = some c)
    (hminds : ∀ g, c.minds g = false) : (takeAll s i).Minded := by
  refine h.advance hc rfl (.of_eq rfl) (fun r _ hmem => .inr ?_) fun r _ _ hr => ?_
  · refine Client.minds_stopping_iff.mpr ⟨{ generation := r.generation }, ?_, rfl, rfl⟩
    exact List.mem_map.mpr ⟨r.entry, hmem, rfl⟩
  · rw [hminds] at hr
    cases hr

/-- A client that takes the run of one document out of the register minds it. -/
theorem Minded.takeUri (h : s.Minded) (hr : s.Register) (hc : s.clients[i]? = some c)
    (hminds : ∀ g, c.minds g = false) {uri : String} {stage : Stage}
    (htaken : ∀ g, s.running.lookup uri = some g →
      Client.minds ⟨c.request, stage⟩ g = true) :
    ((takeUri s uri).1.setStage i stage).Minded := by
  refine h.advance hc rfl (.of_eq rfl) (fun r _ hmem => ?_) fun r _ _ hm => ?_
  · by_cases huri : r.uri = uri
    · refine .inr (htaken _ ?_)
      rw [eq_singleton_of_mem hr.single hmem, Verification.entry, huri, List.lookup_cons_self]
    · exact .inl (List.mem_filter.mpr ⟨hmem, decide_eq_true huri⟩)
  · rw [hminds] at hm
    cases hm

/-- A run that a client does not wait for any longer is over. -/
theorem Minded.answer (h : s.Minded) (hr : s.Register) (hc : s.clients[i]? = some c) {stage : Stage}
    (hclients : t.clients = (s.setStage i stage).clients) (hruns : t.runs = s.runs)
    (hrunning : t.running = s.running) (hover : s.isOver g = true)
    (hminds : ∀ g', g' ≠ g → c.minds g' = true → Client.minds ⟨c.request, stage⟩ g' = true) :
    t.Minded := by
  refine h.advance hc hclients (.of_eq hruns) (fun r _ hmem => .inl (hrunning ▸ hmem)) ?_
  intro r hmem hwork hold
  refine hminds _ (fun hg => ?_) hold
  rw [hruns] at hmem
  rw [isOver, ← hg, hr.run?_eq hmem, Option.all_some] at hover
  rw [Verification.isAtWork_of_isOver hover] at hwork
  cases hwork

/-- A run that is aborted has been asked to stop, so it does not work on. -/
theorem Minded.expire (h : s.Minded) (hr : s.Register) (hw : s.Warned) {request : Request}
    {hs : List Halt} (hc : s.clients[i]? = some ⟨request, .stopping hs⟩) {run : Verification}
    {asked : Nat} (hasked : haltState? hs run.generation = some (.asked asked)) (timeoutMs : Nat) :
    (expire s i run hs timeoutMs).1.Minded := by
  refine h.advance hc rfl (AtWorkBefore.updateRun (fun _ => rfl) fun r _ _ hwork => ?_)
    (fun r _ hmem => .inl hmem) fun r hmem hwork hold => ?_
  · exact (Verification.isAtWork_of_abort hwork).1
  · refine Client.minds_setHalt hold fun hg => ?_
    obtain ⟨r₀, hr₀, rfl⟩ := mem_updateRun.mp hmem
    split at hwork
    · rename_i hsame
      obtain ⟨halt, hhalt, hgeneration, hstate⟩ := exists_halt_of_haltState? hasked
      have hmarked := hw.stopAsked hr hc hhalt hstate hr₀ (hsame.trans hgeneration.symm)
      rw [(Verification.isAtWork_of_abort hwork).2] at hmarked
      cases hmarked
    · rename_i hne
      rw [if_neg hne] at hg
      exact absurd hg hne

/-- A new run is in the register. -/
theorem Minded.spawn (h : s.Minded) (hr : s.Register) {uri : String} {manual : Bool}
    (hc : s.clients[i]? = some ⟨.verify uri manual, .numbered g⟩) :
    (spawn s i uri manual g).Minded := by
  have hempty : s.running = [] := hr.cleared i _ hc rfl Stage.noConfusion
  intro r hmem hwork
  change r ∈ s.runs ++ [_] at hmem
  rw [List.mem_append, List.mem_singleton] at hmem
  rcases hmem with hold | rfl
  · rcases h r hold hwork with hentry | ⟨j, d, hd, hminds⟩
    · rw [hempty] at hentry
      cases hentry
    · have hj : j ≠ i := by
        intro hj
        rw [hj, hc] at hd
        cases hd
        cases hminds
      exact .inr ⟨j, d, (getElem?_setStage_of_ne s _ hj).trans hd, hminds⟩
  · left
    change (uri, g) ∈ s.running.filter _ ++ [(uri, g)]
    simp

theorem Minded.setPhase (h : s.Minded) (hr : s.Register) {run : Verification}
    (hrun : s.run? g = some run) {phase : Phase}
    (hphase : Verification.isAtWork { run with phase } = true → run.isAtWork = true)
    (hclients : t.clients = s.clients) (hruns : t.runs = (s.setPhase g phase).runs)
    (hrunning : t.running = s.running) : t.Minded := by
  have hbefore : AtWorkBefore s (s.setPhase g phase) := by
    refine AtWorkBefore.updateRun (fun _ => rfl) fun r hmem hg hnow => ?_
    obtain ⟨hown, hgeneration⟩ := mem_of_run? hrun
    obtain rfl := hr.run_unique hmem hown (hg.trans hgeneration.symm)
    exact hphase hnow
  refine h.proceed hclients (fun r hmem hwork => ?_) fun r _ _ hmem => hrunning ▸ hmem
  rw [hruns] at hmem
  exact hbefore r hmem hwork

theorem Minded.unregister (h : s.Minded) (run : Verification) (o : Outcome) :
    (unregister s run o).Minded := by
  refine h.proceed rfl (AtWorkBefore.updateRun (fun _ => rfl) fun r _ _ hnow => by cases hnow) ?_
  intro r hr hwork hmem
  refine List.mem_filter.mpr ⟨hmem, ?_⟩
  obtain ⟨r₀, -, rfl⟩ := mem_updateRun.mp hr
  split at hwork
  · cases hwork
  · rename_i hne
    have hentry : r₀.entry ≠ (run.uri, run.generation) := fun he => hne (congrArg Prod.snd he)
    simpa [hne] using hentry

theorem Minded.move (h : s.Minded) (hr : s.Register) (hw : s.Warned)
    (hm : Moves capture s e t) : t.Minded := by
  cases hm with
  | arrive request => exact h.arrive request
  | refuseUnknown hc => exact h.pass hc rfl rfl rfl fun _ => rfl
  | refuseUnready hc => exact h.pass hc rfl rfl rfl fun _ => rfl
  | queue hc => exact h.pass hc rfl rfl rfl fun _ => rfl
  | acquire hc => exact h.pass hc rfl rfl rfl fun _ => rfl
  | takeHolding hc => exact h.takeAll hc fun _ => rfl
  | takeAll hc => exact h.takeAll hc fun _ => rfl
  | takeUri hc =>
    refine h.takeUri hr hc (fun _ => rfl) fun g hg => ?_
    rw [hg]
    exact Client.minds_stopping_iff.mpr ⟨{ generation := g }, by simp, rfl, rfl⟩
  | takeAwaiting hc hlookup =>
    refine h.takeUri hr hc (fun _ => rfl) fun g hg => ?_
    rw [hlookup] at hg
    cases hg
    simp [Client.minds]
  | takeNothing hc hlookup =>
    refine h.takeUri hr hc (fun _ => rfl) fun g hg => ?_
    rw [hlookup] at hg
    cases hg
  | signalOver hc _ hover =>
    exact h.answer hr hc rfl rfl rfl hover fun g' hne hold =>
      Client.minds_setHalt hold fun he => absurd he hne
  | signal hc =>
    refine h.advance hc rfl (AtWorkBefore.updateRun (fun _ => rfl) fun r _ _ hwork => ?_)
      (fun r _ hmem => .inl hmem) fun r _ _ hold => ?_
    · exact Verification.isAtWork_of_asked hwork
    · exact Client.minds_setHalt hold fun _ => rfl
  | observe hc _ hover =>
    exact h.answer hr hc rfl rfl rfl hover fun g' hne hold =>
      Client.minds_setHalt hold fun he => absurd he hne
  | observeAwaited hc hover =>
    refine h.answer hr hc rfl rfl rfl hover fun g' hne hold => ?_
    simp [Client.minds, Ne.symm hne] at hold
  | expire hc hasked hrun =>
    rw [← (mem_of_run? hrun).2] at hasked
    exact h.expire hr hw hc hasked _
  | clear hc hconclusion => exact h.pass hc rfl rfl rfl (Client.minds_of_conclusion hconclusion)
  | conflict hc hconclusion => exact h.pass hc rfl rfl rfl (Client.minds_of_conclusion hconclusion)
  | tell hc _ hconclusion => exact h.pass hc rfl rfl rfl (Client.minds_of_conclusion hconclusion)
  | fail hc => exact h.pass hc rfl rfl rfl fun _ => rfl
  | reset hc => exact h.pass hc rfl rfl rfl fun _ => rfl
  | number hc => exact h.pass hc rfl rfl rfl fun _ => rfl
  | spawn hc => exact h.spawn hr hc
  | begin hrun hphase =>
    refine h.setPhase hr hrun (fun _ => ?_) rfl rfl rfl
    simp [Verification.isAtWork, hphase]
  | yield o hrun hphase =>
    refine h.setPhase hr hrun (fun _ => ?_) rfl rfl rfl
    simp [Verification.isAtWork, hphase]
  | crash hrun => exact h.setPhase hr hrun (fun hwork => by cases hwork) rfl rfl rfl
  | unregister => exact h.unregister _ _
  | dismiss hrun =>
    exact h.setPhase hr (run?_self hrun) (fun hwork => by cases hwork) rfl rfl rfl
  | pass hrun => exact h.setPhase hr (run?_self hrun) (fun hwork => by cases hwork) rfl rfl rfl
  | deliver hrun => exact h.setPhase hr (run?_self hrun) (fun hwork => by cases hwork) rfl rfl rfl
  | operate op => exact h.proceed rfl (.of_eq rfl) fun r _ _ hmem => hmem
  | setReady b => exact h.proceed rfl (.of_eq rfl) fun r _ _ hmem => hmem

structure Sound (s : State) : Prop where
  turns : s.Turns
  register : s.Register
  warned : s.Warned
  minded : s.Minded

theorem Sound.move (h : s.Sound) (hm : Moves capture s e t) : t.Sound :=
  ⟨h.turns.move hm, h.register.move h.turns hm, h.warned.move hm,
    h.minded.move h.register h.warned hm⟩

theorem sound_of_reaches {debugger : Debugger} {ready : Bool}
    (h : Reaches capture { debugger, ready } s) : s.Sound :=
  h.induct ⟨turns_initial debugger ready, register_initial debugger ready,
    warned_initial debugger ready, minded_initial debugger ready⟩ fun _ _ _ hm hs => hs.move hm

/-- A stop or a wait that came from elsewhere has taken the run out of the register and is
not done with it. -/
def attended (s : State) (g : Nat) : Bool := s.clients.any fun c => !c.isVerify && c.minds g

/-- A live run that is left alone stands in the register, or the client with the right to
start the next run stops it. -/
theorem Sound.place_of_unattended (h : s.Sound) {r : Verification} (hr : r ∈ s.runs)
    (hlive : r.phase.isLive = true) (hfree : s.attended r.generation = false) :
    s.running = [r.entry] ∨ ∃ i request halt, s.running = [] ∧ s.holder = some i ∧
      s.clients[i]? = some ⟨request, .stopping [halt]⟩ ∧ halt.generation = r.generation := by
  rcases h.minded r hr (Verification.isAtWork_of_isLive hlive) with hmem | ⟨i, c, hc, hminds⟩
  · exact .inl (eq_singleton_of_mem h.register.single hmem)
  · right
    have hverify : c.isVerify = true := by
      by_contra hother
      have hattended : s.attended r.generation = true := by
        refine List.any_eq_true.mpr ⟨c, List.mem_of_getElem? hc, ?_⟩
        simpa [hminds] using hother
      rw [hfree] at hattended
      cases hattended
    obtain ⟨request, stage⟩ := c
    cases stage with
    | stopping hs =>
      have hholds : Client.holds ⟨request, .stopping hs⟩ = true := hverify
      obtain ⟨halt, hmem, hg, -⟩ := Client.minds_stopping_iff.mp hminds
      have hone := h.register.oneHalt i _ hs hc hholds rfl
      obtain rfl := eq_singleton_of_mem hone hmem
      exact ⟨i, request, halt, h.register.cleared i _ hc hholds Stage.noConfusion,
        h.turns.holder_of_holds hc hholds, hc, hg⟩
    | awaiting g =>
      have hother := h.turns.proper i _ hc
      rw [Client.Proper, hverify] at hother
      cases hother
    | _ => cases hminds

theorem Sound.unattended_unique (h : s.Sound) {r r' : Verification} (hr : r ∈ s.runs)
    (hr' : r' ∈ s.runs) (hlive : r.phase.isLive = true) (hlive' : r'.phase.isLive = true)
    (hfree : s.attended r.generation = false) (hfree' : s.attended r'.generation = false) :
    r = r' := by
  have hgeneration : r.generation = r'.generation := by
    rcases h.place_of_unattended hr hlive hfree with hreg | ⟨i, request, halt, hnone, hi, hc, hg⟩
    · rcases h.place_of_unattended hr' hlive' hfree' with hreg' | ⟨j, _, _, hnone', _⟩
      · rw [hreg] at hreg'
        exact congrArg Prod.snd (List.singleton_inj.mp hreg')
      · rw [hreg] at hnone'
        cases hnone'
    · rcases h.place_of_unattended hr' hlive' hfree' with
        hreg' | ⟨j, request', halt', -, hj, hc', hg'⟩
      · rw [hnone] at hreg'
        cases hreg'
      · rw [hi] at hj
        cases hj
        rw [hc] at hc'
        cases hc'
        exact hg.symm.trans hg'
  exact h.register.run_unique hr hr' hgeneration

theorem Register.runs_nodup (h : s.Register) : s.runs.Nodup :=
  (List.Nodup.of_map _ h.apart).of_map _

/-- The runs that have not got their answer and that no stop or wait from elsewhere took
out of the register. -/
def unattended (s : State) : List Verification :=
  s.runs.filter fun r => r.phase.isLive && !s.attended r.generation

/-- The runs whose call of the verifier is under way. -/
def calling (s : State) : List Verification := s.runs.filter fun r => r.phase.isCalling

theorem Sound.unattended_le_one (h : s.Sound) : s.unattended.length ≤ 1 := by
  have hnodup : s.unattended.Nodup := h.register.runs_nodup.filter _
  have hone : ∀ r ∈ s.unattended, ∀ r' ∈ s.unattended, r = r' := by
    intro r hr r' hr'
    obtain ⟨hmem, hr⟩ := List.mem_filter.mp hr
    obtain ⟨hmem', hr'⟩ := List.mem_filter.mp hr'
    simp only [Bool.and_eq_true, Bool.not_eq_true'] at hr hr'
    exact h.unattended_unique hmem hmem' hr.1 hr'.1 hr.2 hr'.2
  match hlist : s.unattended with
  | [] => exact Nat.zero_le 1
  | [r] => exact Nat.le_refl 1
  | r :: r' :: rest =>
    rw [hlist] at hnodup hone
    have heq : r = r' := hone r (by simp) r' (by simp)
    simp [heq] at hnodup

/-- In every state that can be reached one run at most has no answer yet, those apart that
a stop or a wait from elsewhere has taken out of the register. So as long as all requests
are for new verifications, one call of the verifier at most is under way. -/
theorem calls_le_one {debugger : Debugger} {ready : Bool}
    (h : Reaches capture { debugger, ready } s) :
    s.unattended.length ≤ 1 ∧
      ((∀ c ∈ s.clients, c.isVerify = true) → s.calling.length ≤ 1) := by
  have hone := (sound_of_reaches h).unattended_le_one
  refine ⟨hone, fun hverify => ?_⟩
  have hfree : ∀ g, s.attended g = false := by
    intro g
    refine List.any_eq_false.mpr fun c hc => ?_
    simp [hverify c hc]
  have hsub : s.calling.Sublist s.unattended := by
    refine List.monotone_filter_right _ fun r hcalling => ?_
    simp [hfree, Phase.isLive_of_isCalling hcalling]
  exact Nat.le_trans hsub.length_le hone

/-- A document is verified and its verification stopped. Before the run has reacted to
that, another document is verified. -/
def verifyBesideStop : List Event :=
  [.operate (.openFile "a.vpr"), .operate (.openFile "b.vpr"),
    .arrive (.verify "a.vpr" true), .consider 0, .acquire 0, .take 0, .conclude 0, .reset 0,
    .number 0, .spawn 0, .begin 0,
    .arrive (.stop "a.vpr"), .take 1, .signal 1 0,
    .arrive (.verify "b.vpr" true), .consider 2, .acquire 2, .take 2, .conclude 2, .reset 2,
    .number 2, .spawn 2, .begin 1]

/-- Two calls of the verifier are under way at once, one of them for a run that a stop has
taken out of the register. -/
theorem calls_beside_stop : ∃ s, Reaches Heap.capture {} s ∧
    (s.clients.map (·.request)) =
      [.verify "a.vpr" true, .stop "a.vpr", .verify "b.vpr" true] ∧
    s.calling.length = 2 ∧ s.unattended.length ≤ 1 := by
  have hplayed : ∃ s, play Heap.capture {} verifyBesideStop = some s ∧
      (s.clients.map (·.request)) =
        [.verify "a.vpr" true, .stop "a.vpr", .verify "b.vpr" true] ∧
      s.calling.length = 2 := ⟨_, rfl, rfl, rfl⟩
  obtain ⟨s, hplay, hrequests, hcalling⟩ := hplayed
  have hreach := Reaches.start.play hplay
  exact ⟨s, hreach, hrequests, hcalling, (calls_le_one hreach).1⟩

end State

end ProofStepper.Scheduler
