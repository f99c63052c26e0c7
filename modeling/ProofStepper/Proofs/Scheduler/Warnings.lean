import ProofStepper.Proofs.Scheduler.Register

/-!
# Runs that know that they shall stop

A client marks a run before it waits for it to stop, and no mark is ever taken away. So
every run for which a client waits in that way knows that it was asked.
-/
namespace ProofStepper.Scheduler

theorem mem_setHalt {hs : List Halt} {g : Nat} {state : HaltState} {h : Halt} :
    h ∈ setHalt hs g state ↔
      ∃ h₀ ∈ hs, h = if h₀.generation = g then { h₀ with state } else h₀ := by
  simp only [setHalt, List.mem_map, eq_comm]

theorem exists_halt_of_haltState? {hs : List Halt} {g : Nat} {state : HaltState}
    (h : haltState? hs g = some state) : ∃ halt ∈ hs, halt.generation = g ∧ halt.state = state := by
  obtain ⟨halt, hfound, hstate⟩ := Option.map_eq_some_iff.mp h
  have hgeneration := List.find?_some hfound
  exact ⟨halt, List.mem_of_find?_eq_some hfound, by simpa using hgeneration, hstate⟩

theorem state_of_mem_halts {entries : List (String × Nat)} {h : Halt} (hmem : h ∈ halts entries) :
    h.state = .taken := by
  obtain ⟨e, -, rfl⟩ := List.mem_map.mp hmem
  rfl

namespace State
variable {capture : Heap.Capture} {s t : State} {e : Event} {i g : Nat} {c : Client}

theorem mem_updateRun {change : Verification → Verification} {r : Verification} :
    r ∈ (s.updateRun g change).runs ↔
      ∃ r₀ ∈ s.runs, r = if r₀.generation = g then change r₀ else r₀ := by
  simp only [updateRun, List.mem_map, eq_comm]

/-- A run was asked to stop. -/
def IsAsked (s : State) (g : Nat) : Prop :=
  ∃ r ∈ s.runs, r.generation = g ∧ r.stopAsked = true

/-- Every run that a client waits for after having asked it to stop was asked. -/
def Warned (s : State) : Prop :=
  ∀ (i : Nat) (request : Request) (hs : List Halt) (h : Halt) (timeoutMs : Nat),
    s.clients[i]? = some ⟨request, .stopping hs⟩ → h ∈ hs → h.state = .asked timeoutMs →
    s.IsAsked h.generation

theorem warned_initial (debugger : Debugger) (ready : Bool) : Warned { debugger, ready } := by
  intro i request hs h timeoutMs hc
  simp at hc

/-- Runs that were asked to stop stay so. -/
def KeepsAsked (s t : State) : Prop := ∀ g, s.IsAsked g → t.IsAsked g

theorem KeepsAsked.of_eq (h : t.runs = s.runs) : KeepsAsked s t := by
  intro g hg
  rwa [IsAsked, h]

theorem KeepsAsked.updateRun {change : Verification → Verification}
    (hgeneration : ∀ r, (change r).generation = r.generation)
    (hasked : ∀ r, r.stopAsked = true → (change r).stopAsked = true) :
    KeepsAsked s (s.updateRun g change) := by
  intro g' ⟨r, hr, hg, hwas⟩
  refine ⟨_, mem_updateRun.mpr ⟨r, hr, rfl⟩, ?_⟩
  split
  · exact ⟨(hgeneration r).trans hg, hasked r hwas⟩
  · exact ⟨hg, hwas⟩

theorem Warned.proceed (h : s.Warned) (hclients : t.clients = s.clients)
    (hkeeps : KeepsAsked s t) : t.Warned := by
  intro i request hs halt timeoutMs hc hmem hstate
  rw [hclients] at hc
  exact hkeeps _ (h i request hs halt timeoutMs hc hmem hstate)

/-- A client comes to another stage. It waits for no run that was not asked. -/
theorem Warned.advance (h : s.Warned) (hc : s.clients[i]? = some c) {stage : Stage}
    (hclients : t.clients = (s.setStage i stage).clients) (hkeeps : KeepsAsked s t)
    (hnew : ∀ (hs : List Halt) (halt : Halt) (timeoutMs : Nat), stage = .stopping hs →
      halt ∈ hs → halt.state = .asked timeoutMs → t.IsAsked halt.generation) : t.Warned := by
  intro j request hs halt timeoutMs hd hmem hstate
  rcases eq_or_getElem?_of_setStage hc hclients hd with hself | hold
  · exact hnew hs halt timeoutMs (congrArg Client.stage hself).symm hmem hstate
  · exact hkeeps _ (h j request hs halt timeoutMs hold hmem hstate)

/-- A client goes on to a stage in which it waits for no run that it has asked. -/
theorem Warned.pass (h : s.Warned) (hc : s.clients[i]? = some c) {stage : Stage}
    (hclients : t.clients = (s.setStage i stage).clients) (hruns : t.runs = s.runs)
    (hstage : ∀ hs, stage = .stopping hs → ∀ halt ∈ hs, halt.state = .taken) : t.Warned := by
  refine h.advance hc hclients (.of_eq hruns) fun hs halt timeoutMs he hmem hstate => ?_
  rw [hstage hs he halt hmem] at hstate
  cases hstate

/-- A client answers for one of the runs that it stops. -/
theorem Warned.answer (h : s.Warned) {request : Request} {hs : List Halt}
    (hc : s.clients[i]? = some ⟨request, .stopping hs⟩) {b : Bool}
    (hclients : t.clients = (s.setStage i (.stopping (setHalt hs g (.answered b)))).clients)
    (hkeeps : KeepsAsked s t) : t.Warned := by
  refine h.advance hc hclients hkeeps fun hs' halt timeoutMs he hmem hstate => ?_
  cases he
  obtain ⟨old, hold, rfl⟩ := mem_setHalt.mp hmem
  split at hstate
  · cases hstate
  · rename_i hne
    rw [if_neg hne]
    exact hkeeps _ (h i request hs old timeoutMs hc hold hstate)

/-- A client asks a run to stop: the run is marked. -/
theorem Warned.signal (h : s.Warned) {request : Request} {hs : List Halt}
    (hc : s.clients[i]? = some ⟨request, .stopping hs⟩) (hover : s.isOver g = false)
    (timeoutMs : Nat) :
    ((s.updateRun g fun r => { r with stopAsked := true }).setStage i
      (.stopping (setHalt hs g (.asked timeoutMs)))).Warned := by
  have hkeeps : KeepsAsked s (s.updateRun g fun r => { r with stopAsked := true }) :=
    .updateRun (fun _ => rfl) fun _ _ => rfl
  refine h.advance hc rfl hkeeps fun hs' halt timeoutMs' he hmem hstate => ?_
  cases he
  obtain ⟨old, hold, rfl⟩ := mem_setHalt.mp hmem
  split
  · rename_i hg
    obtain ⟨run, hrun⟩ : ∃ run, s.run? g = some run := by
      cases hrun : s.run? g with
      | none => simp [isOver, hrun] at hover
      | some run => exact ⟨run, rfl⟩
    obtain ⟨hrun, hgeneration⟩ := mem_of_run? hrun
    refine ⟨_, mem_updateRun.mpr ⟨run, hrun, rfl⟩, ?_⟩
    rw [if_pos hgeneration]
    exact ⟨hgeneration.trans hg.symm, rfl⟩
  · rename_i hne
    rw [if_neg hne] at hstate
    exact hkeeps _ (h i request hs old timeoutMs' hc hold hstate)

theorem Warned.arrive (h : s.Warned) (request : Request) :
    Warned { s with clients := s.clients ++ [.arrived request] } := by
  intro i request hs halt timeoutMs hc hmem hstate
  rcases getElem?_arrive.mp hc with hold | ⟨-, hnew⟩
  · exact h i request hs halt timeoutMs hold hmem hstate
  · cases hnew

theorem Warned.setPhase (h : s.Warned) {phase : Phase} (hclients : t.clients = s.clients)
    (hruns : t.runs = (s.setPhase g phase).runs) : t.Warned := by
  have hkeeps : KeepsAsked s (s.setPhase g phase) :=
    KeepsAsked.updateRun (fun _ => rfl) fun _ hwas => hwas
  refine h.proceed hclients fun g' hg => ?_
  rw [IsAsked, hruns]
  exact hkeeps g' hg

theorem Warned.move (h : s.Warned) (hm : Moves capture s e t) : t.Warned := by
  cases hm with
  | arrive request => exact h.arrive request
  | refuseUnknown hc => exact h.pass hc rfl rfl fun _ he => by cases he
  | refuseUnready hc => exact h.pass hc rfl rfl fun _ he => by cases he
  | queue hc => exact h.pass hc rfl rfl fun _ he => by cases he
  | acquire hc => exact h.pass hc rfl rfl fun _ he => by cases he
  | takeHolding hc =>
    refine h.pass hc rfl rfl fun _ he halt hmem => ?_
    cases he
    exact state_of_mem_halts hmem
  | takeAll hc =>
    refine h.pass hc rfl rfl fun _ he halt hmem => ?_
    cases he
    exact state_of_mem_halts hmem
  | takeUri hc =>
    refine h.pass hc rfl rfl fun _ he halt hmem => ?_
    cases he
    obtain ⟨g, -, rfl⟩ := List.mem_map.mp hmem
    rfl
  | takeAwaiting hc => exact h.pass hc rfl rfl fun _ he => by cases he
  | takeNothing hc => exact h.pass hc rfl rfl fun _ he => by cases he
  | signalOver hc => exact h.answer hc rfl (.of_eq rfl)
  | signal hc _ hover => exact h.signal hc hover _
  | observe hc => exact h.answer hc rfl (.of_eq rfl)
  | observeAwaited hc => exact h.pass hc rfl rfl fun _ he => by cases he
  | expire hc => exact h.answer hc rfl (.updateRun (fun _ => rfl) fun _ hwas => hwas)
  | clear hc => exact h.pass hc rfl rfl fun _ he => by cases he
  | conflict hc => exact h.pass hc rfl rfl fun _ he => by cases he
  | tell hc => exact h.pass hc rfl rfl fun _ he => by cases he
  | fail hc => exact h.pass hc rfl rfl fun _ he => by cases he
  | reset hc => exact h.pass hc rfl rfl fun _ he => by cases he
  | number hc => exact h.pass hc rfl rfl fun _ he => by cases he
  | spawn hc =>
    refine h.advance hc rfl (fun g' hg => ?_) fun _ _ _ he => by cases he
    obtain ⟨r, hr, hold⟩ := hg
    exact ⟨r, List.mem_append_left _ hr, hold⟩
  | begin => exact h.setPhase rfl rfl
  | yield => exact h.setPhase rfl rfl
  | crash => exact h.setPhase rfl rfl
  | unregister => exact h.setPhase rfl rfl
  | dismiss => exact h.setPhase rfl rfl
  | pass => exact h.setPhase rfl rfl
  | deliver => exact h.setPhase rfl rfl
  | operate op => exact h.proceed rfl (.of_eq rfl)
  | setReady b => exact h.proceed rfl (.of_eq rfl)

/-- A run for which a client waits after having asked it to stop is marked. -/
theorem Warned.stopAsked (h : s.Warned) (hr : s.Register) {request : Request} {hs : List Halt}
    (hc : s.clients[i]? = some ⟨request, .stopping hs⟩) {halt : Halt} (hmem : halt ∈ hs)
    {timeoutMs : Nat} (hstate : halt.state = .asked timeoutMs) {r : Verification}
    (hrun : r ∈ s.runs) (hg : r.generation = halt.generation) : r.stopAsked = true := by
  obtain ⟨r', hr', hg', hasked⟩ := h i request hs halt timeoutMs hc hmem hstate
  rw [hr.run_unique hrun hr' (hg.trans hg'.symm)]
  exact hasked

end State

end ProofStepper.Scheduler
