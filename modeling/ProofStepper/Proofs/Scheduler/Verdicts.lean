import ProofStepper.Proofs.Scheduler.Turns

/-!
# What clients are told

A client that asked for a new verification is told that it was started or why not, for one
of three reasons; every other client is told a truth value. Nothing else ends a client.
-/
namespace ProofStepper.Scheduler

/-- A verdict that a request can end with. -/
inductive Verdict.Fits : Request → Verdict → Prop
  | started {uri : String} {manual : Bool} : Fits (.verify uri manual) .started
  | unknown {uri : String} {manual : Bool} :
      Fits (.verify uri manual) (.refused (.unknownDocument uri))
  | unready {uri : String} {manual : Bool} :
      Fits (.verify uri manual) (.refused .backendUnavailable)
  | conflict {uri : String} {manual : Bool} :
      Fits (.verify uri manual) (.refused .verificationConflict)
  | told {request : Request} {b : Bool} :
      (∀ uri manual, request ≠ .verify uri manual) → Fits request (.told b)

theorem Client.request_ne_verify {c : Client} (h : c.isVerify = false) (uri : String)
    (manual : Bool) : c.request ≠ .verify uri manual := by
  intro he
  rw [Client.isVerify, he] at h
  cases h

theorem start_error {d : Debugger} {uri : String} {f : Failure}
    (h : (d.start uri).answer = .error f) : f = .unknownDocument uri := by
  unfold Debugger.start Debugger.place at h
  split at h
  · rename_i e hplace
    cases h
    split at hplace
    · cases hplace
      rfl
    · cases hplace
  · cases h

namespace State
variable {capture : Heap.Capture} {s t : State} {e : Event} {i : Nat} {c : Client}

/-- Every client that is done was told what fits its request. -/
def Told (s : State) : Prop :=
  ∀ (i : Nat) (request : Request) (v : Verdict),
    s.clients[i]? = some ⟨request, .done v⟩ → v.Fits request

theorem Told.congr (h : s.Told) (hclients : t.clients = s.clients) : t.Told := by
  rw [Told, hclients]
  exact h

theorem Told.advance (h : s.Told) (hc : s.clients[i]? = some c) {stage : Stage}
    (hclients : t.clients = (s.setStage i stage).clients)
    (hnew : ∀ v, stage = .done v → v.Fits c.request) : t.Told := by
  intro j request v hd
  rcases eq_or_getElem?_of_setStage hc hclients hd with hself | hold
  · cases hself
    exact hnew v rfl
  · exact h j request v hold

/-- A client goes on without being done. -/
theorem Told.pass (h : s.Told) (hc : s.clients[i]? = some c) {stage : Stage}
    (hclients : t.clients = (s.setStage i stage).clients) (hmore : ∀ v, stage ≠ .done v) :
    t.Told :=
  h.advance hc hclients fun v he => absurd he (hmore v)

theorem Told.tell (h : s.Told) (hc : s.clients[i]? = some c) {v : Verdict}
    (hclients : t.clients = (s.setStage i (.done v)).clients) (hfits : v.Fits c.request) :
    t.Told := by
  refine h.advance hc hclients fun v' he => ?_
  cases he
  exact hfits

theorem Told.arrive (h : s.Told) (request : Request) :
    Told { s with clients := s.clients ++ [.arrived request] } := by
  intro i request v hc
  rcases getElem?_arrive.mp hc with hold | ⟨-, hnew⟩
  · exact h i request v hold
  · cases hnew

theorem Told.move (h : s.Told) (ht : s.Turns) (hm : Moves capture s e t) : t.Told := by
  cases hm with
  | arrive request => exact h.arrive request
  | refuseUnknown hc => exact h.tell hc rfl .unknown
  | refuseUnready hc => exact h.tell hc rfl .unready
  | queue hc => exact h.pass hc rfl fun _ => Stage.noConfusion
  | acquire hc => exact h.pass hc rfl fun _ => Stage.noConfusion
  | takeHolding hc => exact h.pass hc rfl fun _ => Stage.noConfusion
  | takeAll hc => exact h.pass hc rfl fun _ => Stage.noConfusion
  | takeUri hc => exact h.pass hc rfl fun _ => Stage.noConfusion
  | takeAwaiting hc => exact h.pass hc rfl fun _ => Stage.noConfusion
  | takeNothing hc => exact h.tell hc rfl (.told (Client.request_ne_verify rfl))
  | signalOver hc => exact h.pass hc rfl fun _ => Stage.noConfusion
  | signal hc => exact h.pass hc rfl fun _ => Stage.noConfusion
  | observe hc => exact h.pass hc rfl fun _ => Stage.noConfusion
  | observeAwaited hc =>
    exact h.tell hc rfl (.told (Client.request_ne_verify (ht.proper _ _ hc)))
  | expire hc => exact h.pass hc rfl fun _ => Stage.noConfusion
  | clear hc => exact h.pass hc rfl fun _ => Stage.noConfusion
  | conflict hc => exact h.tell hc rfl .conflict
  | tell hc hother => exact h.tell hc rfl (.told hother)
  | fail hc herror =>
    rw [start_error herror]
    exact h.tell hc rfl .unknown
  | reset hc => exact h.pass hc rfl fun _ => Stage.noConfusion
  | number hc => exact h.pass hc rfl fun _ => Stage.noConfusion
  | spawn hc => exact h.tell hc rfl .started
  | begin => exact h.congr rfl
  | yield => exact h.congr rfl
  | crash => exact h.congr rfl
  | unregister => exact h.congr rfl
  | dismiss => exact h.congr rfl
  | pass => exact h.congr rfl
  | deliver => exact h.congr rfl
  | operate op => exact h.congr rfl
  | setReady b => exact h.congr rfl

theorem told_of_reaches {debugger : Debugger} {ready : Bool}
    (h : Reaches capture { debugger, ready } s) : s.Told := by
  have hboth : s.Turns ∧ s.Told := by
    refine h.induct (P := fun s => s.Turns ∧ s.Told) ⟨turns_initial debugger ready, ?_⟩
      fun _ _ _ hm hs => ⟨hs.1.move hm, hs.2.move hs.1 hm⟩
    intro i request v hc
    simp at hc
  exact hboth.2

/-- No event changes what a client asked for. -/
theorem requests_move (hm : Moves capture s e t) (he : e.mover ≠ .other) :
    t.clients.map (·.request) = s.clients.map (·.request) := by
  have hstage : ∀ i stage, (s.setStage i stage).clients.map (·.request) =
      s.clients.map (·.request) := by
    intro i stage
    apply List.ext_getElem?
    intro j
    rw [List.getElem?_map, getElem?_setStage, List.getElem?_map]
    split
    · rw [Option.map_map]
      rfl
    · rfl
  cases hm with
  | arrive => exact absurd rfl he
  | operate => exact absurd rfl he
  | setReady => exact absurd rfl he
  | begin => rfl
  | yield => rfl
  | crash => rfl
  | unregister => rfl
  | dismiss => rfl
  | pass => rfl
  | deliver => rfl
  | _ => exact hstage _ _

end State

end ProofStepper.Scheduler
