import ProofStepper.Heap.Session

/-!
# What a session shows of its history

A session knows two slots and the slot to be filled next. `Holds` ties them to the
snapshots pushed since the last drop: the newest lies beside the next slot, and the one
before it in the next slot itself. Dropping the snapshots may leave either slot next, and
the relation does not depend on which it is.
-/
namespace ProofStepper.Heap

inductive Change where
  | push (snapshot : Snapshot)
  | setInfo (info : String)
  | dropSnapshots
  | reset
deriving DecidableEq, Repr, Inhabited

namespace Session

def apply (s : Session) : Change → Except Failure Session
  | .push snapshot => s.push snapshot
  | .setInfo info => .ok (s.setInfo info)
  | .dropSnapshots => .ok s.dropSnapshots
  | .reset => .ok s.reset

/-- Makes changes in order, up to the first one that fails. -/
def applyAll (s : Session) : List Change → Except Failure Session
  | [] => .ok s
  | c :: rest =>
    match s.apply c with
    | .error e => .error e
    | .ok s => applyAll s rest

end Session

/-- The snapshots that one change leaves of those pushed before, the last one first. -/
def Change.keep (pushed : List Snapshot) : Change → List Snapshot
  | .push snapshot => snapshot :: pushed
  | .setInfo _ => pushed
  | .dropSnapshots | .reset => []

/-- The snapshots pushed since the last drop or reset, the last one first. -/
def pushedSince (history : List Change) : List Snapshot := history.foldl Change.keep []

/-- Only a full reset starts the count of pushes again. -/
def Change.count (turns : Nat) : Change → Nat
  | .push _ => turns + 1
  | .setInfo _ | .dropSnapshots => turns
  | .reset => 0

/-- The number of snapshots pushed since the last full reset. -/
def turnsSince (history : List Change) : Nat := history.foldl Change.count 0

@[simp] theorem Store.get?_empty (slot : Nat) : ({} : Store).get? slot = none := by
  unfold Store.get?
  split <;> rfl

theorem Store.lt_of_get? {s : Store} {slot : Nat} {snapshot : Snapshot}
    (h : s.get? slot = some snapshot) : slot < slotCount := by
  unfold Store.get? at h
  split at h
  · exact Nat.zero_lt_two
  · exact Nat.one_lt_two
  · cases h

/-- A session after a snapshot was put into the next slot of another one. -/
structure Session.Pushed (s : Session) (snapshot : Snapshot) (t : Session) : Prop where
  next : t.next = (s.next + 1) % slotCount
  slots : ∀ slot, t.store.get? slot = if slot = s.next then some snapshot else s.store.get? slot
  info : t.info = s.info
  revision : t.revision = s.revision + 1

namespace Store
variable {slot : Nat}

theorem put_of_ge (h : slotCount ≤ slot) (s : Store) (snapshot : Snapshot) :
    s.put slot snapshot = (s, .error (.invalidHeapSlot slot)) := by
  match slot, h with
  | _ + 2, _ => rfl

theorem put_of_lt (h : slot < slotCount) (s : Store) (snapshot : Snapshot) :
    (s.put slot snapshot).2 = .ok () := by
  match slot, h with
  | 0, _ => rfl
  | 1, _ => rfl

theorem get?_put (h : slot < slotCount) (s : Store) (snapshot : Snapshot) (other : Nat) :
    (s.put slot snapshot).1.get? other = if other = slot then some snapshot else s.get? other := by
  match slot, h with
  | 0, _ => match other with | 0 | 1 | _ + 2 => rfl
  | 1, _ => match other with | 0 | 1 | _ + 2 => rfl

theorem set_of_lt (h : slot < slotCount) (s : Store) (snapshot : Snapshot) :
    s.set slot snapshot = .ok (s.put slot snapshot).1 := by
  have hput : s.put slot snapshot = ((s.put slot snapshot).1, .ok ()) :=
    Prod.ext rfl (put_of_lt h s snapshot)
  rw [set, hput]

theorem set_of_ge (h : slotCount ≤ slot) (s : Store) (snapshot : Snapshot) :
    s.set slot snapshot = .error (.invalidHeapSlot slot) := by
  rw [set, put_of_ge h]

end Store

namespace Session

theorem pushed_of_push {s t : Session} {snapshot : Snapshot} (h : s.push snapshot = .ok t) :
    s.Pushed snapshot t := by
  unfold Session.push at h
  rcases Nat.lt_or_ge s.next slotCount with hslot | hslot
  · rw [Store.set_of_lt hslot] at h
    cases h
    exact ⟨rfl, Store.get?_put hslot s.store snapshot, rfl, rfl⟩
  · rw [Store.set_of_ge hslot] at h
    cases h

theorem push_isOk {s : Session} (h : s.next < slotCount) (snapshot : Snapshot) :
    ∃ t, s.push snapshot = .ok t := by
  rw [Session.push, Store.set_of_lt h]
  exact ⟨_, rfl⟩

end Session

structure Session.Holds (pushed : List Snapshot) (turns : Nat) (s : Session) : Prop where
  next : s.next = turns % slotCount
  newest : s.store.get? (1 - s.next) = pushed[0]?
  older : s.store.get? s.next = pushed[1]?

namespace Session
variable {pushed : List Snapshot} {turns : Nat} {s : Session}

theorem Holds.next_lt (h : s.Holds pushed turns) : s.next < slotCount := by
  rw [h.next]
  exact Nat.mod_lt _ (by decide)

theorem Holds.initial : ({} : Session).Holds [] 0 := ⟨rfl, rfl, rfl⟩

theorem Holds.dropped {t : Session} (hstore : t.store = {}) (hnext : t.next = turns % slotCount) :
    t.Holds [] turns := by
  refine ⟨hnext, ?_, ?_⟩ <;> rw [hstore, Store.get?_empty] <;> rfl

/-- A snapshot always finds its slot, and the slot beside it holds the one before. -/
theorem Holds.push (h : s.Holds pushed turns) (snapshot : Snapshot) :
    ∃ t, s.push snapshot = .ok t ∧ t.Holds (snapshot :: pushed) (turns + 1) := by
  obtain ⟨t, ht⟩ := push_isOk h.next_lt snapshot
  have hp := pushed_of_push ht
  have hlt : s.next < 2 := h.next_lt
  have hnext : t.next = 1 - s.next := by
    have hn : t.next = (s.next + 1) % 2 := hp.next
    omega
  refine ⟨t, ht, ?_, ?_, ?_⟩
  · rw [hp.next, h.next, Nat.mod_add_mod]
  · have hself : 1 - t.next = s.next := by omega
    rw [hp.slots, if_pos hself]
    rfl
  · have hother : t.next ≠ s.next := by omega
    rw [hp.slots, if_neg hother, hnext]
    exact h.newest

/-- One change keeps the relation and does not fail. -/
theorem Holds.apply (h : s.Holds pushed turns) (c : Change) :
    ∃ t, s.apply c = .ok t ∧ t.Holds (c.keep pushed) (c.count turns) := by
  cases c with
  | push snapshot => exact h.push snapshot
  | setInfo info => exact ⟨_, rfl, h.next, h.newest, h.older⟩
  | dropSnapshots => exact ⟨_, rfl, .dropped rfl h.next⟩
  | reset => exact ⟨_, rfl, .dropped rfl rfl⟩

theorem Holds.applyAll (h : s.Holds pushed turns) (history : List Change) :
    ∃ t, s.applyAll history = .ok t ∧
      t.Holds (history.foldl Change.keep pushed) (history.foldl Change.count turns) := by
  induction history generalizing s pushed turns with
  | nil => exact ⟨s, rfl, h⟩
  | cons c rest ih =>
    obtain ⟨t, ht, hholds⟩ := h.apply c
    simp only [Session.applyAll, ht]
    exact ih hholds

end Session

/-- A panel shows a snapshot, with its conditions in their order. -/
structure Panel.Shows (p : Panel) (s : Snapshot) : Prop where
  fileName : p.fileName = s.fileName
  methodType : p.methodType = s.methodType
  methodName : p.methodName = s.methodName
  state : p.state = s.relativeState
  position : p.position = s.position
  description : p.description = s.description
  conditions : p.conditions.map (·.text) = s.conditions

/-- A condition is marked exactly if the other snapshot lacks it. -/
def Panel.MarksBeside (p : Panel) (other : Snapshot) : Prop :=
  ∀ c ∈ p.conditions, c.isNew = true ↔ c.text ∉ other.conditions

theorem ofSnapshot_shows (label : Label) (slot : Nat) (s : Snapshot) (other : Option Snapshot) :
    (Panel.ofSnapshot label slot s other).Shows s := by
  refine ⟨rfl, rfl, rfl, rfl, rfl, rfl, ?_⟩
  simp [Panel.ofSnapshot, Function.comp_def]

theorem ofSnapshot_marks (label : Label) (slot : Nat) (s other : Snapshot) :
    (Panel.ofSnapshot label slot s (some other)).MarksBeside other := by
  intro c hc
  obtain ⟨text, -, rfl⟩ := List.mem_map.mp hc
  simp

/-- How the snapshots of a session are presented, the last one first. -/
def View.Presents (next : Nat) (v : View) : List Snapshot → Prop
  | [] => v = .empty
  | [a] => ∃ p, v = .single p ∧ p.label = .only ∧ p.slot = 1 - next ∧ p.Shows a ∧
      ∀ c ∈ p.conditions, c.isNew = false
  | a :: b :: _ => ∃ p q, v = .comparison p q ∧
      p.label = .newer ∧ p.slot = 1 - next ∧ p.Shows a ∧ p.MarksBeside b ∧
      q.label = .older ∧ q.slot = next ∧ q.Shows b ∧ q.MarksBeside a ∧ p.slot ≠ q.slot

theorem Session.Holds.presents {pushed : List Snapshot} {turns : Nat} {s : Session}
    (h : s.Holds pushed turns) : s.view.Presents s.next pushed := by
  have hlt : s.next < 2 := h.next_lt
  have hmod : s.next % slotCount = s.next := Nat.mod_eq_of_lt hlt
  simp only [Session.view, Store.view, hmod, h.newest, h.older]
  match pushed with
  | [] => rfl
  | [a] =>
    refine ⟨_, rfl, rfl, rfl, ofSnapshot_shows .., ?_⟩
    intro c hc
    obtain ⟨text, -, rfl⟩ := List.mem_map.mp hc
    rfl
  | a :: b :: _ =>
    refine ⟨_, _, rfl, rfl, rfl, ofSnapshot_shows .., ofSnapshot_marks _ _ _ _, rfl, rfl,
      ofSnapshot_shows .., ofSnapshot_marks _ _ _ _, ?_⟩
    change 1 - s.next ≠ s.next
    omega

/-- No history fails, and the view afterwards depends on the kept snapshots and the parity
alone. A first snapshot after a drop may come to lie in either slot. -/
theorem session_presents_history :
    (∀ history, ∃ s, ({} : Session).applyAll history = .ok s ∧
      s.next < slotCount ∧ s.next = turnsSince history % slotCount ∧
      s.view.Presents s.next (pushedSince history) ∧ ∀ snapshot, ∃ t, s.push snapshot = .ok t) ∧
    ∀ slot : Fin slotCount, ∃ earlier, ∀ snapshot, ∃ s p,
      ({} : Session).applyAll (earlier ++ [.dropSnapshots, .push snapshot]) = .ok s ∧
      s.view = .single p ∧ p.slot = slot := by
  constructor
  · intro history
    obtain ⟨s, hs, h⟩ := Session.Holds.initial.applyAll history
    refine ⟨s, hs, h.next_lt, h.next, h.presents, fun snapshot => ?_⟩
    obtain ⟨t, ht, -⟩ := h.push snapshot
    exact ⟨t, ht⟩
  · intro slot
    match slot with
    | ⟨0, _⟩ => exact ⟨[], fun snapshot => ⟨_, _, rfl, rfl, rfl⟩⟩
    | ⟨1, _⟩ => exact ⟨[.push default], fun snapshot => ⟨_, _, rfl, rfl, rfl⟩⟩

end ProofStepper.Heap
