import Mathlib.Algebra.Order.BigOperators.Group.List
import Mathlib.Algebra.Order.Ring.Nat
import ProofStepper.Proofs.Scheduler.Calls

/-!
# What is left to do

Every stage of a client and every phase of a run has a number of sections that are left at
most, up to the end of the client and of the run that it may start. The number counts one
more for asking a run to stop and for calling the verifier, since somebody will wait for
the time that is set then. Each section lowers what is left, and each request adds the same
amount to it.
-/
namespace ProofStepper.Scheduler

section Sums
variable {α : Type} {weight lighter : α → Nat} {spent : Nat} {a : α} {l : List α}

/-- If no item gets heavier and one of them gets lighter, so does the whole. -/
theorem sum_map_add_le (h : ∀ a ∈ l, lighter a ≤ weight a) (ha : a ∈ l)
    (hless : lighter a + spent ≤ weight a) :
    (l.map lighter).sum + spent ≤ (l.map weight).sum := by
  obtain ⟨before, later, rfl⟩ := List.append_of_mem ha
  have hbefore : (before.map lighter).sum ≤ (before.map weight).sum :=
    List.sum_le_sum fun b hb => h b (List.mem_append_left _ hb)
  have hlater : (later.map lighter).sum ≤ (later.map weight).sum :=
    List.sum_le_sum fun b hb => h b (List.mem_append_right _ (List.mem_cons_of_mem _ hb))
  simp only [List.map_append, List.map_cons, List.sum_append, List.sum_cons]
  omega

theorem sum_map_modify {i : Nat} (ha : l[i]? = some a) (change : α → α) :
    ((l.modify i change).map weight).sum + weight a =
      (l.map weight).sum + weight (change a) := by
  obtain ⟨before, later, hl, hmodify⟩ := State.exists_modify ha
  rw [hmodify, hl]
  simp only [List.map_append, List.map_cons, List.sum_append, List.sum_cons]
  omega

end Sums

def HaltState.effort : HaltState → Nat
  | .taken => 3
  | .asked _ => 1
  | .answered _ => 0

/-- What is left for those runs that a client stops. -/
def effortOfHalts (hs : List Halt) : Nat := (hs.map fun h => h.state.effort).sum

def Stage.effort : Stage → Nat
  | .arrived => 16
  | .waiting => 15
  | .holding => 14
  | .stopping hs => 10 + effortOfHalts hs
  | .cleared => 9
  | .started => 8
  | .numbered _ => 7
  | .awaiting _ => 1
  | .done _ => 0

def Phase.effort : Phase → Nat
  | .spawned => 6
  | .calling => 4
  | .returned _ => 3
  | .unregistered _ => 2
  | .cleared _ => 1
  | .finished | .crashed | .aborted => 0

def effortOfClients (clients : List Client) : Nat :=
  (clients.map fun c => c.stage.effort).sum

def effortOfRuns (runs : List Verification) : Nat := (runs.map fun r => r.phase.effort).sum

theorem Phase.effort_abort_le (p : Phase) : p.abort.effort ≤ p.effort := by
  cases p <;> simp [abort, effort]

/-- How much an event takes from what is left: its own section, and the waiting that it
brings about. -/
def Event.cost : Event → Nat
  | .begin _ | .signal _ _ => 2
  | .arrive _ | .operate _ | .setReady _ => 0
  | _ => 1

theorem Event.cost_pos {e : Event} (h : e.mover ≠ .other) : 1 ≤ e.cost := by
  cases e with
  | arrive => exact absurd rfl h
  | operate => exact absurd rfl h
  | setReady => exact absurd rfl h
  | signal => exact Nat.le_succ 1
  | begin => exact Nat.le_succ 1
  | _ => exact Nat.le_refl 1

/-- Stopping one run is less to do than what comes before it. -/
theorem Stage.effort_stopping_le {hs : List Halt} (h : hs.length ≤ 1) :
    (Stage.stopping hs).effort ≤ 13 := by
  have hle : ∀ halt : Halt, halt.state.effort ≤ 3 := by
    rintro ⟨g, state⟩
    cases state <;> simp [HaltState.effort]
  have hsum : effortOfHalts hs ≤ (hs.map fun halt => halt.state.effort).length • 3 :=
    List.sum_le_card_nsmul _ 3 (by simpa using fun halt _ => hle halt)
  rw [List.length_map, nsmul_eq_mul, Nat.cast_id] at hsum
  rw [effort]
  omega

/-- A client that stops one run has only that one to answer for. -/
theorem eq_singleton_of_haltState? {hs : List Halt} {g : Nat} {state : HaltState}
    (h : hs.length ≤ 1) (hstate : haltState? hs g = some state) : hs = [⟨g, state⟩] := by
  obtain ⟨halt, hmem, rfl, rfl⟩ := exists_halt_of_haltState? hstate
  exact State.eq_singleton_of_mem h hmem

namespace State
variable {capture : Heap.Capture} {s t : State} {e : Event} {i g cost : Nat} {c : Client}

def effort (s : State) : Nat := effortOfClients s.clients + effortOfRuns s.runs

/-- A client stops one run at most. -/
def Narrow (s : State) : Prop :=
  ∀ (i : Nat) (request : Request) (hs : List Halt),
    s.clients[i]? = some ⟨request, .stopping hs⟩ → hs.length ≤ 1

theorem Narrow.congr (h : s.Narrow) (hclients : t.clients = s.clients) : t.Narrow := by
  rw [Narrow, hclients]
  exact h

theorem Narrow.advance (h : s.Narrow) (hc : s.clients[i]? = some c) {stage : Stage}
    (hclients : t.clients = (s.setStage i stage).clients)
    (hnew : ∀ hs, stage = .stopping hs → hs.length ≤ 1) : t.Narrow := by
  intro j request hs hd
  rcases eq_or_getElem?_of_setStage hc hclients hd with hself | hold
  · exact hnew hs (congrArg Client.stage hself).symm
  · exact h j request hs hold

theorem Narrow.arrive (h : s.Narrow) (request : Request) :
    Narrow { s with clients := s.clients ++ [.arrived request] } := by
  intro i request hs hc
  rcases getElem?_arrive.mp hc with hold | ⟨-, hnew⟩
  · exact h i request hs hold
  · cases hnew

theorem Narrow.halt (h : s.Narrow) {request : Request} {hs : List Halt} {state : HaltState}
    (hc : s.clients[i]? = some ⟨request, .stopping hs⟩)
    (hclients : t.clients = (s.setStage i (.stopping (setHalt hs g state))).clients) :
    t.Narrow := by
  refine h.advance hc hclients fun hs' he => ?_
  cases he
  rw [length_setHalt]
  exact h i request hs hc

theorem Narrow.takeAll (h : s.Narrow) (hr : s.Register) (hc : s.clients[i]? = some c) :
    (takeAll s i).Narrow := by
  refine h.advance hc rfl fun hs he => ?_
  cases he
  simpa [halts] using hr.single

theorem Narrow.move (h : s.Narrow) (hr : s.Register) (hm : Moves capture s e t) : t.Narrow := by
  cases hm with
  | arrive request => exact h.arrive request
  | refuseUnknown hc => exact h.advance hc rfl fun _ he => by cases he
  | refuseUnready hc => exact h.advance hc rfl fun _ he => by cases he
  | queue hc => exact h.advance hc rfl fun _ he => by cases he
  | acquire hc => exact h.advance hc rfl fun _ he => by cases he
  | takeHolding hc => exact h.takeAll hr hc
  | takeAll hc => exact h.takeAll hr hc
  | @takeUri i uri hc =>
    refine h.advance hc rfl fun hs he => ?_
    cases he
    cases s.running.lookup uri <;> simp
  | takeAwaiting hc => exact h.advance hc rfl fun _ he => by cases he
  | takeNothing hc => exact h.advance hc rfl fun _ he => by cases he
  | signalOver hc => exact h.halt hc rfl
  | signal hc => exact h.halt hc rfl
  | observe hc => exact h.halt hc rfl
  | observeAwaited hc => exact h.advance hc rfl fun _ he => by cases he
  | expire hc => exact h.halt hc rfl
  | clear hc => exact h.advance hc rfl fun _ he => by cases he
  | conflict hc => exact h.advance hc rfl fun _ he => by cases he
  | tell hc => exact h.advance hc rfl fun _ he => by cases he
  | fail hc => exact h.advance hc rfl fun _ he => by cases he
  | reset hc => exact h.advance hc rfl fun _ he => by cases he
  | number hc => exact h.advance hc rfl fun _ he => by cases he
  | spawn hc => exact h.advance hc rfl fun _ he => by cases he
  | begin => exact h.congr rfl
  | yield => exact h.congr rfl
  | crash => exact h.congr rfl
  | unregister => exact h.congr rfl
  | dismiss => exact h.congr rfl
  | pass => exact h.congr rfl
  | deliver => exact h.congr rfl
  | operate op => exact h.congr rfl
  | setReady b => exact h.congr rfl

theorem narrow_of_reaches {debugger : Debugger} {ready : Bool}
    (h : Reaches capture { debugger, ready } s) : s.Narrow := by
  have hboth : s.Sound ∧ s.Narrow := by
    refine h.induct (P := fun s => s.Sound ∧ s.Narrow)
      ⟨sound_of_reaches (@Reaches.start capture _), ?_⟩
      fun _ _ _ hm hs => ⟨hs.1.move hm, hs.2.move hs.1.register hm⟩
    intro i request hs hc
    simp at hc
  exact hboth.2

/-- So much was taken from what is left, where each new client brings 16. -/
def Spends (s : State) (cost : Nat) (t : State) : Prop :=
  t.effort + cost + 16 * s.clients.length ≤ s.effort + 16 * t.clients.length

theorem length_setStage (s : State) (i : Nat) (stage : Stage) :
    (s.setStage i stage).clients.length = s.clients.length := by
  simp [setStage]

theorem effortOfClients_setStage (hc : s.clients[i]? = some c) (stage : Stage) :
    effortOfClients (s.setStage i stage).clients + c.stage.effort =
      effortOfClients s.clients + stage.effort :=
  sum_map_modify hc _

/-- A client comes to another stage, with less left to do, and no run gets more to do. -/
theorem Spends.advance (hc : s.clients[i]? = some c) {stage : Stage}
    (hclients : t.clients = (s.setStage i stage).clients)
    (hruns : effortOfRuns t.runs ≤ effortOfRuns s.runs)
    (hless : stage.effort + cost ≤ c.stage.effort) : Spends s cost t := by
  have hstage := effortOfClients_setStage hc stage
  have hlength := s.length_setStage i stage
  unfold Spends effort
  rw [hclients, hlength]
  omega

theorem effortOfRuns_updateRun_le {change : Verification → Verification}
    (h : ∀ r, (change r).phase.effort ≤ r.phase.effort) :
    effortOfRuns (s.updateRun g change).runs ≤ effortOfRuns s.runs := by
  rw [effortOfRuns, updateRun, List.map_map]
  refine List.sum_le_sum fun r _ => ?_
  dsimp only [Function.comp_apply]
  split
  · exact h r
  · exact Nat.le_refl _

/-- A client comes to another stage, with less left to do. -/
theorem Spends.pass (hc : s.clients[i]? = some c) {stage : Stage}
    (hclients : t.clients = (s.setStage i stage).clients) (hruns : t.runs = s.runs)
    (hless : stage.effort + cost ≤ c.stage.effort) : Spends s cost t :=
  .advance hc hclients (Nat.le_of_eq (by rw [hruns])) hless

/-- A client begins to stop a run. -/
theorem Spends.stop (hn : t.Narrow) (hc : s.clients[i]? = some c) {hs : List Halt}
    (hclients : t.clients = (s.setStage i (.stopping hs)).clients) (hruns : t.runs = s.runs)
    (hmore : 14 ≤ c.stage.effort) : Spends s 1 t := by
  have hself : t.clients[i]? = some ⟨c.request, .stopping hs⟩ := by
    rw [hclients, getElem?_setStage_self hc]
  have hle := Stage.effort_stopping_le (hn i _ hs hself)
  exact .pass hc hclients hruns (by omega)

/-- A run comes to another phase, with less left to do. -/
theorem Spends.proceed (hr : s.Register) {run : Verification} (hrun : s.run? g = some run)
    {phase : Phase} (hclients : t.clients = s.clients) (hruns : t.runs = (s.setPhase g phase).runs)
    (hless : phase.effort + cost ≤ run.phase.effort) : Spends s cost t := by
  obtain ⟨hmem, hg⟩ := mem_of_run? hrun
  have hmap : effortOfRuns (s.setPhase g phase).runs + cost ≤ effortOfRuns s.runs := by
    rw [effortOfRuns, setPhase, updateRun, List.map_map]
    refine sum_map_add_le (fun r hr' => ?_) hmem ?_
    · dsimp only [Function.comp_apply]
      split
      · rename_i hsame
        obtain rfl := hr.run_unique hr' hmem (hsame.trans hg.symm)
        exact Nat.le_trans (Nat.le_add_right _ cost) hless
      · exact Nat.le_refl _
    · rw [Function.comp_apply, if_pos hg]
      exact hless
  unfold Spends effort
  rw [hclients, hruns]
  omega

/-- A client answers for the one run that it stops. -/
theorem Spends.halt (hn : s.Narrow) {request : Request} {hs : List Halt} {old new : HaltState}
    (hc : s.clients[i]? = some ⟨request, .stopping hs⟩) (hold : haltState? hs g = some old)
    (hclients : t.clients = (s.setStage i (.stopping (setHalt hs g new))).clients)
    (hruns : effortOfRuns t.runs ≤ effortOfRuns s.runs)
    (hless : new.effort + cost ≤ old.effort) : Spends s cost t := by
  obtain rfl := eq_singleton_of_haltState? (hn i request hs hc) hold
  refine .advance hc hclients hruns ?_
  simp only [setHalt, Stage.effort, effortOfHalts, List.map_cons, List.map_nil, if_true,
    List.sum_cons, List.sum_nil]
  omega

theorem Spends.spawn {uri : String} {manual : Bool}
    (hc : s.clients[i]? = some ⟨.verify uri manual, .numbered g⟩) :
    Spends s 1 (spawn s i uri manual g) := by
  have hstage := effortOfClients_setStage hc (.done .started)
  have hruns : effortOfRuns (Scheduler.spawn s i uri manual g).runs = effortOfRuns s.runs + 6 := by
    exact (congrArg List.sum List.map_append).trans List.sum_append
  have hlength := s.length_setStage i (.done .started)
  unfold Spends effort
  rw [hruns]
  change effortOfClients (s.setStage i (.done .started)).clients + _ + 1 + _ ≤
    _ + 16 * (s.setStage i (.done .started)).clients.length
  simp only [Stage.effort] at hstage
  omega

theorem Spends.same (hclients : t.clients = s.clients) (hruns : t.runs = s.runs) :
    Spends s 0 t := by
  rw [Spends, effort, effort, hclients, hruns]
  exact Nat.le_refl _

theorem Spends.move (hr : s.Register) (hn : s.Narrow) (hm : Moves capture s e t) :
    Spends s e.cost t := by
  have hnow := hn.move hr hm
  cases hm with
  | arrive request =>
    simp only [Spends, effort, effortOfClients, Event.cost, List.map_append, List.sum_append,
      List.length_append, List.map_cons, List.map_nil, List.sum_cons, List.sum_nil,
      List.length_singleton, Client.arrived, Stage.effort]
    omega
  | refuseUnknown hc =>
    exact .pass hc rfl rfl (by simp [Client.arrived, Stage.effort, Event.cost])
  | refuseUnready hc =>
    exact .pass hc rfl rfl (by simp [Client.arrived, Stage.effort, Event.cost])
  | queue hc => exact .pass hc rfl rfl (Nat.le_refl 16)
  | acquire hc => exact .pass hc rfl rfl (Nat.le_refl 15)
  | takeHolding hc => exact .stop hnow hc rfl rfl (Nat.le_refl 14)
  | takeAll hc => exact .stop hnow hc rfl rfl (Nat.le_add_right 14 2)
  | takeUri hc => exact .stop hnow hc rfl rfl (Nat.le_add_right 14 2)
  | takeAwaiting hc =>
    exact .pass hc rfl rfl (by simp [Client.arrived, Stage.effort, Event.cost])
  | takeNothing hc =>
    exact .pass hc rfl rfl (by simp [Client.arrived, Stage.effort, Event.cost])
  | signalOver hc htaken =>
    exact .halt hn hc htaken rfl (Nat.le_refl _) (by simp [HaltState.effort, Event.cost])
  | signal hc htaken =>
    refine .halt hn hc htaken rfl (effortOfRuns_updateRun_le fun r => ?_) (Nat.le_refl 3)
    exact Nat.le_refl _
  | observe hc hasked => exact .halt hn hc hasked rfl (Nat.le_refl _) (Nat.le_refl 1)
  | observeAwaited hc => exact .pass hc rfl rfl (Nat.le_refl 1)
  | @expire i g timeoutMs request hs run hc hasked hrun =>
    rw [← (mem_of_run? hrun).2] at hasked
    exact .halt hn hc hasked rfl (effortOfRuns_updateRun_le fun r => r.phase.effort_abort_le)
      (Nat.le_refl 1)
  | clear hc => exact .pass hc rfl rfl (by simp only [Stage.effort, Event.cost]; omega)
  | conflict hc => exact .pass hc rfl rfl (by simp only [Stage.effort, Event.cost]; omega)
  | tell hc => exact .pass hc rfl rfl (by simp only [Stage.effort, Event.cost]; omega)
  | fail hc => exact .pass hc rfl rfl (by simp [Stage.effort, Event.cost])
  | reset hc => exact .pass hc rfl rfl (Nat.le_refl 9)
  | number hc => exact .pass hc rfl rfl (Nat.le_refl 8)
  | spawn hc => exact .spawn hc
  | begin hrun hphase => exact .proceed hr hrun rfl rfl (by simp [hphase, Phase.effort, Event.cost])
  | yield o hrun hphase =>
    exact .proceed hr hrun rfl rfl (by simp [hphase, Phase.effort, Event.cost])
  | crash hrun hphase => exact .proceed hr hrun rfl rfl (by simp [hphase, Phase.effort, Event.cost])
  | unregister hrun hphase =>
    exact .proceed hr (run?_self hrun) rfl rfl (by simp [hphase, Phase.effort, Event.cost])
  | dismiss hrun hphase =>
    exact .proceed hr (run?_self hrun) rfl rfl (by simp [hphase, Phase.effort, Event.cost])
  | pass hrun hphase =>
    exact .proceed hr (run?_self hrun) rfl rfl (by simp [hphase, Phase.effort, Event.cost])
  | deliver hrun hphase =>
    exact .proceed hr (run?_self hrun) rfl rfl (by simp [hphase, Phase.effort, Event.cost])
  | operate op => exact .same rfl rfl
  | setReady b => exact .same rfl rfl

end State

end ProofStepper.Scheduler
