import Mathlib.Data.List.Nodup
import ProofStepper.Proofs.Scheduler.Turns

/-!
# The register of running verifications

Every run has a generation of its own. The register names one run at most, and none while
a client is past stopping the old runs and has not registered its own yet.
-/
namespace ProofStepper.Scheduler

/-- How a run is entered into the register. -/
def Verification.entry (r : Verification) : String × Nat := (r.uri, r.generation)

@[simp] theorem length_setHalt (hs : List Halt) (g : Nat) (state : HaltState) :
    (setHalt hs g state).length = hs.length := by
  simp [setHalt]

namespace State
variable {capture : Heap.Capture} {s t : State} {e : Event} {i g : Nat} {c : Client}

/-- The entries of all runs that ever were. -/
def known (s : State) : List (String × Nat) := s.runs.map Verification.entry

theorem known_updateRun (s : State) (g : Nat) {change : Verification → Verification}
    (h : ∀ r, (change r).entry = r.entry) : (s.updateRun g change).known = s.known := by
  simp only [known, updateRun, List.map_map]
  apply List.map_congr_left
  intro r _
  simp only [Function.comp_apply]
  split
  · exact h r
  · rfl

theorem mem_of_run? {run : Verification} (h : s.run? g = some run) :
    run ∈ s.runs ∧ run.generation = g := by
  have hgeneration := List.find?_some h
  exact ⟨List.mem_of_find?_eq_some h, by simpa using hgeneration⟩

structure Register (s : State) : Prop where
  apart : (s.known.map (·.2)).Nodup
  used : ∀ e ∈ s.known, e.2 < s.nextGeneration
  chosen : ∀ (i : Nat) (c : Client) (g : Nat), s.clients[i]? = some c → c.stage = .numbered g →
    g < s.nextGeneration ∧ ∀ e ∈ s.known, e.2 ≠ g
  entries : ∀ e ∈ s.running, e ∈ s.known
  single : s.running.length ≤ 1
  cleared : ∀ (i : Nat) (c : Client), s.clients[i]? = some c → c.holds = true →
    c.stage ≠ .holding → s.running = []
  oneHalt : ∀ (i : Nat) (c : Client) (hs : List Halt), s.clients[i]? = some c → c.holds = true →
    c.stage = .stopping hs → hs.length ≤ 1

theorem register_initial (debugger : Debugger) (ready : Bool) : Register { debugger, ready } where
  apart := List.nodup_nil
  used _ he := by cases he
  chosen _ _ _ hc := by simp at hc
  entries _ he := by cases he
  single := Nat.zero_le 1
  cleared _ _ hc := by simp at hc
  oneHalt _ _ _ hc := by simp at hc

/-- The run with a generation is the only one. -/
theorem Register.run?_eq (h : s.Register) {r : Verification} (hr : r ∈ s.runs) :
    s.run? r.generation = some r := by
  have hfound : (s.run? r.generation).isSome := by
    simp only [run?, List.find?_isSome]
    exact ⟨r, hr, by simp⟩
  obtain ⟨r', hr'⟩ := Option.isSome_iff_exists.mp hfound
  obtain ⟨hmem, hgeneration⟩ := mem_of_run? hr'
  have hnodup : (s.runs.map Verification.generation).Nodup := by
    simpa [known, Verification.entry, Function.comp_def] using h.apart
  have heq : r' = r := List.inj_on_of_nodup_map hnodup hmem hr hgeneration
  rw [hr', heq]

theorem Register.run_unique (h : s.Register) {r r' : Verification} (hr : r ∈ s.runs)
    (hr' : r' ∈ s.runs) (hg : r.generation = r'.generation) : r = r' := by
  have hfound := h.run?_eq hr
  rw [hg, h.run?_eq hr'] at hfound
  exact (Option.some.inj hfound).symm

/-- Runs may leave the register. -/
theorem Register.shrink (h : s.Register) (hclients : t.clients = s.clients)
    (hknown : t.known = s.known) (hnext : t.nextGeneration = s.nextGeneration)
    (hrunning : t.running.Sublist s.running) : t.Register where
  apart := hknown ▸ h.apart
  used := by
    rw [hknown, hnext]
    exact h.used
  chosen := by
    rw [hclients, hknown, hnext]
    exact h.chosen
  entries e he := by
    rw [hknown]
    exact h.entries e (hrunning.subset he)
  single := Nat.le_trans hrunning.length_le h.single
  cleared i c hc hholds hstage := by
    rw [hclients] at hc
    rw [h.cleared i c hc hholds hstage] at hrunning
    exact List.sublist_nil.mp hrunning
  oneHalt := by
    rw [hclients]
    exact h.oneHalt

theorem Register.setPhase (h : s.Register) {phase : Phase} (hclients : t.clients = s.clients)
    (hruns : t.runs = (s.setPhase g phase).runs) (hnext : t.nextGeneration = s.nextGeneration)
    (hrunning : t.running.Sublist s.running) : t.Register := by
  refine h.shrink hclients ?_ hnext hrunning
  rw [known, hruns]
  exact s.known_updateRun g fun _ => rfl

theorem Register.arrive (h : s.Register) (request : Request) :
    Register { s with clients := s.clients ++ [.arrived request] } where
  apart := h.apart
  used := h.used
  chosen i c g hc hstage := by
    rcases getElem?_arrive.mp hc with hold | ⟨-, rfl⟩
    · exact h.chosen i c g hold hstage
    · cases hstage
  entries := h.entries
  single := h.single
  cleared i c hc hholds hstage := by
    rcases getElem?_arrive.mp hc with hold | ⟨-, rfl⟩
    · exact h.cleared i c hold hholds hstage
    · cases hholds
  oneHalt i c hs hc hholds hstage := by
    rcases getElem?_arrive.mp hc with hold | ⟨-, rfl⟩
    · exact h.oneHalt i c hs hold hholds hstage
    · cases hstage

/-- A client comes to another stage, and runs may leave the register. If it has the right
to start a run and is past waiting for the old ones, none is left there. -/
theorem Register.advance (h : s.Register) (hc : s.clients[i]? = some c) {stage : Stage}
    (hclients : t.clients = (s.setStage i stage).clients) (hknown : t.known = s.known)
    (hnext : s.nextGeneration ≤ t.nextGeneration) (hrunning : t.running.Sublist s.running)
    (hnumber : ∀ g, stage = .numbered g → g < t.nextGeneration ∧ ∀ e ∈ s.known, e.2 ≠ g)
    (hcleared : Client.holds ⟨c.request, stage⟩ = true → stage ≠ .holding → t.running = [])
    (hhalts : Client.holds ⟨c.request, stage⟩ = true → ∀ hs, stage = .stopping hs →
      hs.length ≤ 1) : t.Register := by
  have hcases : ∀ (j : Nat) (d : Client), t.clients[j]? = some d →
      d = ⟨c.request, stage⟩ ∨ s.clients[j]? = some d :=
    fun _ _ => eq_or_getElem?_of_setStage hc hclients
  refine ⟨hknown ▸ h.apart, ?_, ?_, ?_, Nat.le_trans hrunning.length_le h.single, ?_, ?_⟩
  · intro e he
    rw [hknown] at he
    exact Nat.lt_of_lt_of_le (h.used e he) hnext
  · intro j d g hd hstage
    rw [hknown]
    rcases hcases j d hd with rfl | hold
    · exact hnumber g hstage
    · obtain ⟨hlt, hnew⟩ := h.chosen j d g hold hstage
      exact ⟨Nat.lt_of_lt_of_le hlt hnext, hnew⟩
  · intro e he
    rw [hknown]
    exact h.entries e (hrunning.subset he)
  · intro j d hd hholds hstage
    rcases hcases j d hd with rfl | hold
    · exact hcleared hholds hstage
    · rw [h.cleared j d hold hholds hstage] at hrunning
      exact List.sublist_nil.mp hrunning
  · intro j d hs hd hholds hstage
    rcases hcases j d hd with rfl | hold
    · exact hhalts hholds hs hstage
    · exact h.oneHalt j d hs hold hholds hstage

/-- A client that has no right to start a run, or that has lost it, takes no part in what
the register has to keep. -/
theorem Register.bystander (h : s.Register) (hc : s.clients[i]? = some c) {stage : Stage}
    (hclients : t.clients = (s.setStage i stage).clients) (hknown : t.known = s.known)
    (hnext : t.nextGeneration = s.nextGeneration) (hrunning : t.running.Sublist s.running)
    (hholds : Client.holds ⟨c.request, stage⟩ = false) : t.Register := by
  refine h.advance hc hclients hknown (Nat.le_of_eq hnext.symm) hrunning (fun g hg => ?_)
    (fun hnew => ?_) fun hnew => ?_
  · subst hg
    cases hholds
  · rw [hholds] at hnew
    cases hnew
  · rw [hholds] at hnew
    cases hnew

/-- A client answers for one of the runs that it stops. -/
theorem Register.halt (h : s.Register) {request : Request} {hs : List Halt}
    (hc : s.clients[i]? = some ⟨request, .stopping hs⟩) {state : HaltState}
    (hclients : t.clients = (s.setStage i (.stopping (setHalt hs g state))).clients)
    (hknown : t.known = s.known) (hnext : t.nextGeneration = s.nextGeneration)
    (hrunning : t.running = s.running) : t.Register := by
  refine h.advance hc hclients hknown (Nat.le_of_eq hnext.symm) (hrunning ▸ List.Sublist.refl _)
    (fun g hg => ?_) (fun hnew _ => ?_) fun hnew hs' he => ?_
  · cases hg
  · rw [hrunning]
    exact h.cleared i _ hc hnew Stage.noConfusion
  · cases he
    rw [length_setHalt]
    exact h.oneHalt i _ hs hc hnew rfl

theorem Register.number (h : s.Register) {request : Request}
    (hc : s.clients[i]? = some ⟨request, .started⟩) :
    Register { s.setStage i (.numbered s.nextGeneration) with
      nextGeneration := s.nextGeneration + 1 } := by
  refine h.advance hc rfl rfl (Nat.le_succ _) (List.Sublist.refl _) (fun g hg => ?_)
    (fun _ _ => h.cleared i _ hc rfl Stage.noConfusion) fun _ hs he => by cases he
  cases hg
  exact ⟨Nat.lt_succ_self _, fun e he => Nat.ne_of_lt (h.used e he)⟩

/-- Once a run is registered nobody has the right to start another one, and it is the
only one in the register. -/
theorem Register.spawn (h : s.Register) (ht : s.Turns) {uri : String} {manual : Bool}
    (hc : s.clients[i]? = some ⟨.verify uri manual, .numbered g⟩) :
    (spawn s i uri manual g).Register := by
  obtain ⟨hlt, hnew⟩ := h.chosen i _ g hc rfl
  have hempty : s.running = [] := h.cleared i _ hc rfl Stage.noConfusion
  have hrunning : (Scheduler.spawn s i uri manual g).running = [(uri, g)] := by
    change s.running.filter _ ++ [(uri, g)] = _
    rw [hempty, List.filter_nil, List.nil_append]
  have hknown : (Scheduler.spawn s i uri manual g).known = s.known ++ [(uri, g)] := by
    change (s.runs ++ [_]).map Verification.entry = _
    rw [List.map_append]
    rfl
  have hidle : ∀ (j : Nat) (d : Client),
      (Scheduler.spawn s i uri manual g).clients[j]? = some d → d.holds = false := by
    intro j d hd
    change (s.setStage i (.done .started)).clients[j]? = some d at hd
    by_cases hj : j = i
    · subst hj
      rw [getElem?_setStage_self hc] at hd
      cases hd
      rfl
    · rw [getElem?_setStage_of_ne s _ hj] at hd
      by_contra hholds
      exact hj (ht.holds_unique hd hc (by simpa using hholds) rfl)
  refine ⟨?_, ?_, ?_, ?_, ?_, ?_, ?_⟩
  · rw [hknown, List.map_append, List.map_singleton]
    refine List.nodup_append.mpr ⟨h.apart, List.nodup_singleton _, fun a ha b hb => ?_⟩
    obtain ⟨e, he, rfl⟩ := List.mem_map.mp ha
    rw [List.mem_singleton.mp hb]
    exact hnew e he
  · intro e he
    rw [hknown, List.mem_append, List.mem_singleton] at he
    rcases he with he | rfl
    · exact h.used e he
    · exact hlt
  · intro j d g' hd hstage
    have hholds := hidle j d hd
    simp [Client.holds, hstage] at hholds
  · intro e he
    rw [hrunning, List.mem_singleton] at he
    rw [hknown, he]
    simp
  · rw [hrunning]
    exact Nat.le_refl 1
  · intro j d hd hholds
    rw [hidle j d hd] at hholds
    cases hholds
  · intro j d hs hd hholds
    rw [hidle j d hd] at hholds
    cases hholds

theorem Register.move (h : s.Register) (ht : s.Turns) (hm : Moves capture s e t) : t.Register := by
  cases hm with
  | arrive request => exact h.arrive request
  | refuseUnknown hc => exact h.bystander hc rfl rfl rfl (List.Sublist.refl _) rfl
  | refuseUnready hc => exact h.bystander hc rfl rfl rfl (List.Sublist.refl _) rfl
  | queue hc => exact h.bystander hc rfl rfl rfl (List.Sublist.refl _) rfl
  | acquire hc =>
    exact h.advance hc rfl rfl (Nat.le_refl _) (List.Sublist.refl _) (fun g hg => by cases hg)
      (fun _ hne => absurd rfl hne) fun _ hs he => by cases he
  | takeHolding hc =>
    refine h.advance hc rfl rfl (Nat.le_refl _) (List.nil_sublist _) (fun g hg => by cases hg)
      (fun _ _ => rfl) fun _ hs he => ?_
    cases he
    simpa [halts] using h.single
  | takeAll hc => exact h.bystander hc rfl rfl rfl (List.nil_sublist _) rfl
  | takeUri hc => exact h.bystander hc rfl rfl rfl List.filter_sublist rfl
  | takeAwaiting hc => exact h.bystander hc rfl rfl rfl List.filter_sublist rfl
  | takeNothing hc => exact h.bystander hc rfl rfl rfl List.filter_sublist rfl
  | signalOver hc => exact h.halt hc rfl rfl rfl rfl
  | @signal i g _ _ hc => exact h.halt hc rfl (s.known_updateRun g fun _ => rfl) rfl rfl
  | observe hc => exact h.halt hc rfl rfl rfl rfl
  | observeAwaited hc => exact h.bystander hc rfl rfl rfl (List.Sublist.refl _) rfl
  | @expire i g _ _ _ run hc =>
    exact h.halt hc rfl (s.known_updateRun run.generation fun _ => rfl) rfl rfl
  | clear hc =>
    exact h.advance hc rfl rfl (Nat.le_refl _) (List.Sublist.refl _) (fun g hg => by cases hg)
      (fun _ _ => h.cleared _ _ hc rfl Stage.noConfusion) fun _ hs he => by cases he
  | conflict hc => exact h.bystander hc rfl rfl rfl (List.Sublist.refl _) rfl
  | tell hc => exact h.bystander hc rfl rfl rfl (List.Sublist.refl _) rfl
  | fail hc => exact h.bystander hc rfl rfl rfl (List.Sublist.refl _) rfl
  | reset hc =>
    exact h.advance hc rfl rfl (Nat.le_refl _) (List.Sublist.refl _) (fun g hg => by cases hg)
      (fun _ _ => h.cleared _ _ hc rfl Stage.noConfusion) fun _ hs he => by cases he
  | number hc => exact h.number hc
  | spawn hc => exact h.spawn ht hc
  | begin => exact h.setPhase rfl rfl rfl (List.Sublist.refl _)
  | yield => exact h.setPhase rfl rfl rfl (List.Sublist.refl _)
  | crash => exact h.setPhase rfl rfl rfl (List.Sublist.refl _)
  | unregister => exact h.setPhase rfl rfl rfl List.filter_sublist
  | dismiss => exact h.setPhase rfl rfl rfl (List.Sublist.refl _)
  | pass => exact h.setPhase rfl rfl rfl (List.Sublist.refl _)
  | deliver => exact h.setPhase rfl rfl rfl (List.Sublist.refl _)
  | operate op => exact h.shrink rfl rfl rfl (List.Sublist.refl _)
  | setReady b => exact h.shrink rfl rfl rfl (List.Sublist.refl _)

end State

end ProofStepper.Scheduler
