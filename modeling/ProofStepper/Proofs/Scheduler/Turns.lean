import ProofStepper.Proofs.Scheduler.Moves

/-!
# Who may start a run

One client at a time has the right to start a run. It gets the right when nobody has it
and keeps it until its own run is registered or its request refused, so it is the holder
exactly while it is in one of the stages in between.
-/
namespace ProofStepper.Scheduler

namespace Client

/-- The client asks for a new verification. -/
def isVerify (c : Client) : Bool :=
  match c.request with
  | .verify _ _ => true
  | _ => false

/-- The client is in a stage in which it has the right to start a run. -/
def holds (c : Client) : Bool :=
  match c.stage with
  | .holding | .cleared | .started | .numbered _ => true
  | .stopping _ => c.isVerify
  | _ => false

/-- Only a client that asks for a new verification comes to the stages that lead to one,
and only another one waits for a run to end by itself. -/
def Proper (c : Client) : Prop :=
  match c.stage with
  | .waiting | .holding | .cleared | .started | .numbered _ => c.isVerify = true
  | .awaiting _ => c.isVerify = false
  | _ => True

theorem Proper.isVerify {c : Client} (h : c.Proper) (hholds : c.holds = true) :
    c.isVerify = true := by
  obtain ⟨request, stage⟩ := c
  cases stage with
  | holding => exact h
  | stopping hs => exact hholds
  | cleared => exact h
  | started => exact h
  | numbered g => exact h
  | _ => cases hholds

end Client

namespace State
variable {capture : Heap.Capture} {s t : State} {e : Event} {i : Nat} {c : Client}

theorem eq_singleton_of_mem {α : Type} {l : List α} {a : α} (h : l.length ≤ 1) (ha : a ∈ l) :
    l = [a] := by
  obtain ⟨only, rfl⟩ := List.length_eq_one_iff.mp
    (Nat.le_antisymm h (List.length_pos_of_mem ha))
  rw [List.mem_singleton.mp ha]

/-- Changing one item leaves the items before and after it. -/
theorem exists_modify {α : Type} {l : List α} {a : α} (ha : l[i]? = some a) :
    ∃ before later, l = before ++ a :: later ∧
      ∀ change : α → α, l.modify i change = before ++ change a :: later := by
  obtain ⟨hlt, rfl⟩ := List.getElem?_eq_some_iff.mp ha
  refine ⟨l.take i, l.drop (i + 1), ?_, fun change => ?_⟩
  · rw [List.getElem_cons_drop, List.take_append_drop]
  · rw [List.modify_eq_take_cons_drop hlt]

theorem getElem?_setStage (s : State) (i : Nat) (stage : Stage) (j : Nat) :
    (s.setStage i stage).clients[j]? =
      if j = i then s.clients[j]?.map fun c => { c with stage } else s.clients[j]? := by
  simp only [setStage, List.getElem?_modify]
  by_cases h : i = j
  · simp [h]
  · simp [h, Ne.symm h]

theorem getElem?_setStage_self (hc : s.clients[i]? = some c) (stage : Stage) :
    (s.setStage i stage).clients[i]? = some { c with stage } := by
  rw [getElem?_setStage, if_pos rfl, hc, Option.map_some]

theorem getElem?_setStage_of_ne (s : State) (stage : Stage) {j : Nat} (h : j ≠ i) :
    (s.setStage i stage).clients[j]? = s.clients[j]? := by
  rw [getElem?_setStage, if_neg h]

/-- If one client comes to another stage, then every client is that one or was there before. -/
theorem eq_or_getElem?_of_setStage (hc : s.clients[i]? = some c) {stage : Stage}
    (hclients : t.clients = (s.setStage i stage).clients) {j : Nat} {d : Client}
    (hd : t.clients[j]? = some d) : d = ⟨c.request, stage⟩ ∨ s.clients[j]? = some d := by
  rw [hclients] at hd
  by_cases hj : j = i
  · subst hj
    rw [getElem?_setStage_self hc] at hd
    exact .inl (Option.some.inj hd).symm
  · rw [getElem?_setStage_of_ne s stage hj] at hd
    exact .inr hd

/-- The client that has the right to start a run is the one in a stage that comes with it. -/
structure Turns (s : State) : Prop where
  proper : ∀ (i : Nat) (c : Client), s.clients[i]? = some c → c.Proper
  holder : ∀ i, s.holder = some i ↔ ∃ c : Client, s.clients[i]? = some c ∧ c.holds = true

theorem Turns.holder_of_holds (h : s.Turns) (hc : s.clients[i]? = some c)
    (hholds : c.holds = true) : s.holder = some i :=
  (h.holder i).mpr ⟨c, hc, hholds⟩

theorem Turns.holds_unique (h : s.Turns) {j : Nat} {d : Client} (hc : s.clients[i]? = some c)
    (hd : s.clients[j]? = some d) (hcholds : c.holds = true) (hdholds : d.holds = true) :
    i = j := by
  have hi := h.holder_of_holds hc hcholds
  rw [h.holder_of_holds hd hdholds] at hi
  exact (Option.some.inj hi).symm

theorem turns_initial (debugger : Debugger) (ready : Bool) : Turns { debugger, ready } := by
  refine ⟨fun i c hc => ?_, fun i => ⟨fun hi => ?_, fun ⟨c, hc, _⟩ => ?_⟩⟩
  · simp at hc
  · cases hi
  · simp at hc

theorem Turns.congr (h : s.Turns) (hclients : t.clients = s.clients)
    (hholder : t.holder = s.holder) : t.Turns := by
  refine ⟨fun i c hc => ?_, fun i => ?_⟩
  · rw [hclients] at hc
    exact h.proper i c hc
  · rw [hclients, hholder]
    exact h.holder i

theorem getElem?_arrive {request : Request} :
    (s.clients ++ [Client.arrived request])[i]? = some c ↔
      s.clients[i]? = some c ∨ i = s.clients.length ∧ c = .arrived request := by
  rw [List.getElem?_append]
  split
  · rename_i hlt
    exact ⟨.inl, fun h => h.resolve_right fun hnew => by omega⟩
  · rename_i hge
    have hnone : s.clients[i]? = none := List.getElem?_eq_none (by omega)
    rw [hnone]
    constructor
    · intro h
      obtain ⟨hlt, hget⟩ := List.getElem?_eq_some_iff.mp h
      simp only [List.length_singleton] at hlt
      exact .inr ⟨by omega, by simpa using hget.symm⟩
    · intro h
      obtain ⟨rfl, rfl⟩ := h.resolve_left (by simp)
      simp

theorem Turns.arrive (h : s.Turns) (request : Request) :
    Turns { s with clients := s.clients ++ [.arrived request] } := by
  refine ⟨fun i c hc => ?_, fun i => ?_⟩
  · rcases getElem?_arrive.mp hc with hold | ⟨-, rfl⟩
    · exact h.proper i c hold
    · trivial
  · rw [h.holder i]
    constructor
    · intro ⟨c, hc, hholds⟩
      exact ⟨c, getElem?_arrive.mpr (.inl hc), hholds⟩
    · intro ⟨c, hc, hholds⟩
      rcases getElem?_arrive.mp hc with hold | ⟨-, rfl⟩
      · exact ⟨c, hold, hholds⟩
      · cases hholds

/-- A client comes to another stage. It gets the right to start only when nobody has it. -/
theorem Turns.advance (h : s.Turns) (hc : s.clients[i]? = some c) {stage : Stage}
    (hclients : t.clients = (s.setStage i stage).clients)
    (hproper : Client.Proper ⟨c.request, stage⟩)
    (hfree : Client.holds ⟨c.request, stage⟩ = true → c.holds = true ∨ s.holder = none)
    (hholder : t.holder = if Client.holds ⟨c.request, stage⟩ then some i
      else if c.holds then none else s.holder) : t.Turns := by
  have hself : t.clients[i]? = some ⟨c.request, stage⟩ := by
    rw [hclients, getElem?_setStage_self hc]
  have hother : ∀ j, j ≠ i → t.clients[j]? = s.clients[j]? := by
    intro j hj
    rw [hclients, getElem?_setStage_of_ne s stage hj]
  have hold : s.holder = some i ↔ c.holds = true := by simp [h.holder i, hc]
  refine ⟨fun j d hd => ?_, fun j => ?_⟩
  · by_cases hj : j = i
    · subst hj
      rw [hself] at hd
      cases hd
      exact hproper
    · rw [hother j hj] at hd
      exact h.proper j d hd
  · by_cases hj : j = i
    · subst hj
      rw [hself]
      by_cases hnew : Client.holds ⟨c.request, stage⟩ = true
      · simp [hholder, hnew]
      · by_cases hwas : c.holds = true
        · simp [hholder, hnew, hwas]
        · simp [hholder, hnew, hwas, hold]
    · rw [hother j hj, ← h.holder j, hholder]
      by_cases hnew : Client.holds ⟨c.request, stage⟩ = true
      · have hnone : s.holder ≠ some j := by
          rcases hfree hnew with hwas | hnone
          · rw [hold.mpr hwas]
            exact fun he => hj (Option.some.inj he).symm
          · rw [hnone]
            exact Option.some_ne_none j |>.symm
        simp [hnew, hnone, Ne.symm hj]
      · by_cases hwas : c.holds = true
        · simp [hnew, hwas, hold.mpr hwas, Ne.symm hj]
        · simp [hnew, hwas]

/-- A client comes to a stage with as much right to start as it had. -/
theorem Turns.keep (h : s.Turns) (hc : s.clients[i]? = some c) {stage : Stage}
    (hclients : t.clients = (s.setStage i stage).clients)
    (hproper : Client.Proper ⟨c.request, stage⟩)
    (hholds : Client.holds ⟨c.request, stage⟩ = c.holds) (hholder : t.holder = s.holder) :
    t.Turns := by
  refine h.advance hc hclients hproper (fun hnew => .inl (hholds ▸ hnew)) ?_
  rw [hholder, hholds]
  split
  · rename_i hwas
    exact h.holder_of_holds hc hwas
  · rfl

theorem Turns.release (h : s.Turns) (hc : s.clients[i]? = some c) (hholds : c.holds = true)
    {v : Verdict} (hclients : t.clients = (s.setStage i (.done v)).clients)
    (hholder : t.holder = none) : t.Turns := by
  refine h.advance hc hclients trivial (fun hnew => by cases hnew) ?_
  rw [hholder, if_pos hholds]
  rfl

theorem Turns.move (h : s.Turns) (hm : Moves capture s e t) : t.Turns := by
  cases hm with
  | arrive request => exact h.arrive request
  | refuseUnknown hc => exact h.keep hc rfl trivial rfl rfl
  | refuseUnready hc => exact h.keep hc rfl trivial rfl rfl
  | queue hc => exact h.keep hc rfl rfl rfl rfl
  | acquire hc hfree =>
    have hverify := h.proper _ _ hc
    exact h.advance hc rfl hverify (fun _ => .inr hfree) rfl
  | takeHolding hc =>
    have hverify := (h.proper _ _ hc).isVerify rfl
    exact h.keep hc rfl trivial hverify rfl
  | takeAll hc => exact h.keep hc rfl trivial rfl rfl
  | takeUri hc => exact h.keep hc rfl trivial rfl rfl
  | takeAwaiting hc => exact h.keep hc rfl rfl rfl rfl
  | takeNothing hc => exact h.keep hc rfl trivial rfl rfl
  | signalOver hc => exact h.keep hc rfl trivial rfl rfl
  | signal hc => exact h.keep hc rfl trivial rfl rfl
  | observe hc => exact h.keep hc rfl trivial rfl rfl
  | observeAwaited hc => exact h.keep hc rfl trivial rfl rfl
  | expire hc => exact h.keep hc rfl trivial rfl rfl
  | clear hc => exact h.keep hc rfl rfl rfl rfl
  | conflict hc => exact h.release hc rfl rfl rfl
  | @tell i request hs b hc hother =>
    have hholds : Client.holds ⟨request, .stopping hs⟩ = false := by
      cases request with
      | verify uri manual => exact absurd rfl (hother uri manual)
      | _ => rfl
    exact h.keep hc rfl trivial hholds.symm rfl
  | fail hc => exact h.release hc rfl rfl rfl
  | reset hc => exact h.keep hc rfl rfl rfl rfl
  | number hc =>
    have hverify := h.proper _ _ hc
    exact h.keep hc rfl hverify rfl rfl
  | spawn hc => exact h.release hc rfl rfl rfl
  | begin => exact h.congr rfl rfl
  | yield => exact h.congr rfl rfl
  | crash => exact h.congr rfl rfl
  | unregister => exact h.congr rfl rfl
  | dismiss => exact h.congr rfl rfl
  | pass => exact h.congr rfl rfl
  | deliver => exact h.congr rfl rfl
  | operate op => exact h.congr rfl rfl
  | setReady b => exact h.congr rfl rfl

end State

end ProofStepper.Scheduler
