import ProofStepper.Proofs.Scheduler.Delivery

/-!
# How a run leaves the register

A run stands in the register under its uri, but it is taken out for its generation: it
takes itself out once it has its answer, and a client that stops it, or waits for it, may
take it out before that. Nothing else does, so a run that comes late leaves the run alone
that stands there for its uri by then.
-/
namespace ProofStepper.Scheduler

namespace Client

/-- The client is about to stop the run of a document. -/
def stops (c : Client) (uri : String) : Prop :=
  match c.stage, c.request with
  | .arrived, .stop own => own = uri
  | .arrived, .stopAll => True
  | .holding, .verify _ _ => True
  | _, _ => False

/-- The client has got a number for its run. -/
def isNumbered (c : Client) : Bool :=
  match c.stage with
  | .numbered _ | .done .started => true
  | _ => false

end Client

namespace State
variable {capture : Heap.Capture} {s t : State} {e : Event} {i g : Nat} {c : Client}
  {entry : String × Nat}

/-- Every number is given to one client. -/
def Counted (s : State) : Prop := s.nextGeneration = s.clients.countP Client.isNumbered

theorem countP_setStage (hc : s.clients[i]? = some c) (p : Client → Bool) (stage : Stage) :
    (s.setStage i stage).clients.countP p + (if p c then 1 else 0) =
      s.clients.countP p + if p ⟨c.request, stage⟩ then 1 else 0 := by
  obtain ⟨before, later, hclients, hmodify⟩ := exists_modify hc
  rw [setStage, hmodify, hclients]
  simp only [List.countP_append, List.countP_cons]
  omega

theorem Counted.congr (h : s.Counted) (hclients : t.clients = s.clients)
    (hnext : t.nextGeneration = s.nextGeneration) : t.Counted := by
  rw [Counted, hclients, hnext]
  exact h

/-- A client comes to another stage, in which it has a number exactly if it had one. -/
theorem Counted.advance (h : s.Counted) (hc : s.clients[i]? = some c) {stage : Stage}
    (hclients : t.clients = (s.setStage i stage).clients)
    (hnext : t.nextGeneration = s.nextGeneration)
    (hsame : Client.isNumbered ⟨c.request, stage⟩ = c.isNumbered) : t.Counted := by
  have hcount := countP_setStage hc Client.isNumbered stage
  rw [hsame] at hcount
  rw [Counted, hclients, hnext, h]
  omega

theorem Counted.number (h : s.Counted) {request : Request}
    (hc : s.clients[i]? = some ⟨request, .started⟩) :
    Counted { s.setStage i (.numbered s.nextGeneration) with
      nextGeneration := s.nextGeneration + 1 } := by
  have hcount := countP_setStage hc Client.isNumbered (.numbered s.nextGeneration)
  rw [← h] at hcount
  exact hcount.symm

theorem Counted.arrive (h : s.Counted) (request : Request) :
    Counted { s with clients := s.clients ++ [.arrived request] } := by
  change s.nextGeneration = (s.clients ++ [_]).countP _
  rw [List.countP_append, h]
  rfl

theorem Counted.move (h : s.Counted) (hm : Moves capture s e t) : t.Counted := by
  cases hm with
  | arrive request => exact h.arrive request
  | refuseUnknown hc => exact h.advance hc rfl rfl rfl
  | refuseUnready hc => exact h.advance hc rfl rfl rfl
  | queue hc => exact h.advance hc rfl rfl rfl
  | acquire hc => exact h.advance hc rfl rfl rfl
  | takeHolding hc => exact h.advance hc rfl rfl rfl
  | takeAll hc => exact h.advance hc rfl rfl rfl
  | takeUri hc => exact h.advance hc rfl rfl rfl
  | takeAwaiting hc => exact h.advance hc rfl rfl rfl
  | takeNothing hc => exact h.advance hc rfl rfl rfl
  | signalOver hc => exact h.advance hc rfl rfl rfl
  | signal hc => exact h.advance hc rfl rfl rfl
  | observe hc => exact h.advance hc rfl rfl rfl
  | observeAwaited hc => exact h.advance hc rfl rfl rfl
  | expire hc => exact h.advance hc rfl rfl rfl
  | clear hc => exact h.advance hc rfl rfl rfl
  | conflict hc => exact h.advance hc rfl rfl rfl
  | tell hc => exact h.advance hc rfl rfl rfl
  | fail hc => exact h.advance hc rfl rfl rfl
  | reset hc => exact h.advance hc rfl rfl rfl
  | number hc => exact h.number hc
  | spawn hc => exact h.advance hc rfl rfl rfl
  | begin => exact h.congr rfl rfl
  | yield => exact h.congr rfl rfl
  | crash => exact h.congr rfl rfl
  | unregister => exact h.congr rfl rfl
  | dismiss => exact h.congr rfl rfl
  | pass => exact h.congr rfl rfl
  | deliver => exact h.congr rfl rfl
  | operate op => exact h.congr rfl rfl
  | setReady b => exact h.congr rfl rfl

theorem counted_of_reaches {debugger : Debugger} {ready : Bool}
    (h : Reaches capture { debugger, ready } s) : s.Counted :=
  h.induct rfl fun _ _ _ hm hs => hs.move hm

/-- The event takes an entry out of the register: its run has got its answer, or a client
has come to stop it. -/
inductive Leaves (s : State) (entry : String × Nat) : Event → State → Prop
  | finished {t : State} {run : Verification} {o : Outcome} :
      s.run? entry.2 = some run → run.entry = entry → run.phase = .returned o →
      Leaves s entry (.unregister entry.2) t
  | stopped {t : State} {i : Nat} {c : Client} {hs : List Halt} :
      s.clients[i]? = some c → c.stops entry.1 →
      t.clients[i]? = some ⟨c.request, .stopping hs⟩ → { generation := entry.2 } ∈ hs →
      Leaves s entry (.take i) t

/-- The event takes an entry out for a client that waits for the run of the document. -/
def IsAwaitedBy (s : State) (entry : String × Nat) (e : Event) : Prop :=
  ∃ i, e = .take i ∧ s.clients[i]? = some (.arrived (.wait entry.1))

theorem Register.lookup_eq (h : s.Register) (hmem : entry ∈ s.running) :
    s.running.lookup entry.1 = some entry.2 := by
  rw [eq_singleton_of_mem h.single hmem, List.lookup_cons_self]

theorem Leaves.takeAll (hc : s.clients[i]? = some c) (hstops : c.stops entry.1)
    (hmem : entry ∈ s.running) : Leaves s entry (.take i) (takeAll s i) :=
  .stopped hc hstops (getElem?_setStage_self hc _) (List.mem_map_of_mem hmem)

theorem uri_of_not_mem_takeUri {uri : String} (hmem : entry ∈ s.running)
    (hgone : entry ∉ (takeUri s uri).1.running) : entry.1 = uri := by
  by_contra hne
  exact hgone (List.mem_filter.mpr ⟨hmem, decide_eq_true hne⟩)

/-- Nothing else takes an entry out, nor does another entry take its place. -/
theorem Sound.leaves (h : s.Sound) (hm : Moves capture s e t) (hmem : entry ∈ s.running)
    (hgone : entry ∉ t.running) : Leaves s entry e t ∨ s.IsAwaitedBy entry e := by
  have hlookup := h.register.lookup_eq hmem
  cases hm with
  | @takeHolding i request hc =>
    have hverify : Client.isVerify ⟨request, .holding⟩ = true := h.turns.proper _ _ hc
    cases request with
    | verify uri manual => exact .inl (.takeAll hc trivial hmem)
    | _ => cases hverify
  | takeAll hc => exact .inl (.takeAll hc trivial hmem)
  | @takeUri i uri hc =>
    have huri := uri_of_not_mem_takeUri hmem hgone
    subst huri
    refine .inl (.stopped hc rfl (getElem?_setStage_self hc _) ?_)
    rw [hlookup]
    exact List.mem_singleton_self _
  | @takeAwaiting i uri g hc =>
    have huri := uri_of_not_mem_takeUri hmem hgone
    subst huri
    exact .inr ⟨i, rfl, hc⟩
  | @takeNothing i uri hc hfound =>
    have huri := uri_of_not_mem_takeUri hmem hgone
    subst huri
    rw [hlookup] at hfound
    cases hfound
  | @spawn i g uri manual hc =>
    rw [h.register.cleared _ _ hc rfl Stage.noConfusion] at hmem
    cases hmem
  | @unregister g run o hrun hphase =>
    have hown : entry = run.entry := by
      by_contra hne
      exact hgone (List.mem_filter.mpr ⟨hmem, decide_eq_true hne⟩)
    subst hown
    rw [← (mem_of_run? hrun).2]
    exact .inl (.finished (run?_self hrun) rfl hphase)
  | _ => exact absurd hmem hgone

/-- An entry that is gone has left the register at one of the steps in between. -/
theorem Sound.exists_leaves (h : s.Sound) (hreach : Reaches capture s t)
    (hmem : entry ∈ s.running) (hgone : entry ∉ t.running) :
    ∃ u v e notices, Reaches capture s u ∧ entry ∈ u.running ∧
      step capture u e = some (v, notices) ∧ (Leaves u entry e v ∨ u.IsAwaitedBy entry e) ∧
      Reaches capture v t := by
  induction hreach with
  | start => exact absurd hmem hgone
  | @step u v e notices hu hstep ih =>
    by_cases hthere : entry ∈ u.running
    · exact ⟨u, v, e, notices, hu, hthere, hstep,
        (h.continues hu).1.leaves (moves_of_step hstep) hthere hgone, .start⟩
    · obtain ⟨u', v', e', notices', hu', hmem', hstep', hleaves, hlater⟩ := ih hthere
      exact ⟨u', v', e', notices', hu', hmem', hstep', hleaves, hlater.step hstep⟩

/-- A run that takes itself out leaves every other run in. -/
theorem mem_of_unregister {notices : List Notice}
    (hstep : step capture s (.unregister g) = some (t, notices)) (hmem : entry ∈ s.running)
    (hother : entry.2 ≠ g) : entry ∈ t.running := by
  cases moves_of_step hstep with
  | @unregister _ run o hrun hphase =>
    refine List.mem_filter.mpr ⟨hmem, decide_eq_true fun heq => hother ?_⟩
    rw [heq]
    exact (mem_of_run? hrun).2

/-- What the register keeps, in a state and from there on. The bound on the generations is
the number of requests, so that they are apart as long as requests can be counted. -/
structure KeepsRegister (capture : Heap.Capture) (s : State) : Prop where
  single : s.running.length ≤ 1
  entries : ∀ entry ∈ s.running, entry ∈ s.known
  apart : (s.runs.map Verification.generation).Nodup
  bounded : ∀ r ∈ s.runs, r.generation < s.clients.length
  kept : ∀ t, Reaches capture s t → ∀ entry ∈ s.known, entry ∈ t.known
  leaves : ∀ e t notices entry, step capture s e = some (t, notices) → entry ∈ s.running →
    entry ∉ t.running → Leaves s entry e t ∨ s.IsAwaitedBy entry e
  left : ∀ t entry, Reaches capture s t → entry ∈ s.running → entry ∉ t.running →
    ∃ u v e notices, Reaches capture s u ∧ entry ∈ u.running ∧
      step capture u e = some (v, notices) ∧ (Leaves u entry e v ∨ u.IsAwaitedBy entry e) ∧
      Reaches capture v t
  spared : ∀ g t notices entry, step capture s (.unregister g) = some (t, notices) →
    entry ∈ s.running → entry.2 ≠ g → entry ∈ t.running

/-- In every state that can be reached the register has one entry at most, each run has a
generation of its own, and where nobody waits for a run an entry leaves the register only
since its run has its answer or a client stops it. No run takes out another one. -/
theorem register_kept {debugger : Debugger} {ready : Bool}
    (h : Reaches capture { debugger, ready } s) : KeepsRegister capture s := by
  have hsound := sound_of_reaches h
  refine ⟨hsound.register.single, hsound.register.entries, ?_, fun r hr => ?_,
    fun t ht => (hsound.continues ht).2.known, fun e t notices entry hstep => ?_,
    fun t entry => hsound.exists_leaves, fun g t notices entry => mem_of_unregister⟩
  · simpa [known, Verification.entry, Function.comp_def] using hsound.register.apart
  · have hused := hsound.register.used r.entry (List.mem_map_of_mem hr)
    rw [counted_of_reaches h] at hused
    exact Nat.lt_of_lt_of_le hused List.countP_le_length
  · exact hsound.leaves (moves_of_step hstep)

/-- A document is verified, and its verification is stopped while the verifier works. Then
it is verified again before the first run has taken itself out. -/
def verifyAfterStop : List Event :=
  [.operate (.openFile "a.vpr"),
    .arrive (.verify "a.vpr" true), .consider 0, .acquire 0, .take 0, .conclude 0, .reset 0,
    .number 0, .spawn 0, .begin 0,
    .arrive (.stop "a.vpr"), .take 1, .signal 1 0, .yield 0 (.error "stopped"),
    .arrive (.verify "a.vpr" true), .consider 2, .acquire 2, .take 2, .conclude 2, .reset 2,
    .number 2, .spawn 2]

/-- The first run of a document takes itself out when the second one stands in the register
for it already, and leaves it there. -/
theorem successor_kept : ∃ s t notices, Reaches Heap.capture {} s ∧
    s.known = [("a.vpr", 0), ("a.vpr", 1)] ∧ s.running = [("a.vpr", 1)] ∧
    step Heap.capture s (.unregister 0) = some (t, notices) ∧ ("a.vpr", 1) ∈ t.running := by
  have hplayed : ∃ s t notices, play Heap.capture {} verifyAfterStop = some s ∧
      s.known = [("a.vpr", 0), ("a.vpr", 1)] ∧ s.running = [("a.vpr", 1)] ∧
      step Heap.capture s (.unregister 0) = some (t, notices) :=
    ⟨_, _, _, rfl, rfl, rfl, rfl⟩
  obtain ⟨s, t, notices, hplay, hknown, hrunning, hstep⟩ := hplayed
  have hreach := Reaches.start.play hplay
  refine ⟨s, t, notices, hreach, hknown, hrunning, hstep, ?_⟩
  have hmem : ("a.vpr", 1) ∈ s.running := by
    rw [hrunning]
    exact List.mem_singleton_self _
  exact (register_kept hreach).spared 0 t notices _ hstep hmem Nat.one_ne_zero

end State

end ProofStepper.Scheduler
