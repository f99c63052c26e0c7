import ProofStepper.Proofs.Heap.Session

/-!
# What the two slots show of their history

A slot holds the snapshot that was put into it last since the slots were emptied, and a
number that names no slot is refused without any effect. What is seen depends on the
parity of the next slot alone, and on it only if both slots are filled: then the two
parities show the same panels in the other order, under each other's labels.
-/
namespace ProofStepper.Heap

namespace View
variable {v : View}

theorem eq_empty_iff : v = .empty ↔ v.panels.length = 0 := by
  cases v <;> simp [View.panels]

theorem exists_single_iff : (∃ p, v = .single p) ↔ v.panels.length = 1 := by
  cases v <;> simp [View.panels]

theorem exists_comparison_iff :
    (∃ p q, v = .comparison p q) ↔ v.panels.length = 2 := by
  cases v <;> simp [View.panels]

end View

namespace Store

inductive Change where
  | set (slot : Nat) (snapshot : Snapshot)
  | reset
deriving DecidableEq, Repr, Inhabited

/-- Makes a change and tells whether it went well. -/
def apply (s : Store) : Change → Store × Except Failure Unit
  | .set slot snapshot => s.put slot snapshot
  | .reset => ({}, .ok ())

def after (s : Store) (history : List Change) : Store :=
  history.foldl (fun s c => (s.apply c).1) s

/-- A history in which a slot was neither filled nor emptied. -/
def Spares (slot : Nat) (history : List Change) : Prop :=
  .reset ∉ history ∧ ∀ snapshot, .set slot snapshot ∉ history

/-- A history in which a snapshot was put into a slot, and left there afterwards. -/
def Leaves (slot : Nat) (snapshot : Snapshot) (history : List Change) : Prop :=
  slot < slotCount ∧
    ∃ before later, history = before ++ .set slot snapshot :: later ∧ Spares slot later

section
variable {slot : Nat}

theorem get?_apply_set (s : Store) (slot : Nat) (snapshot : Snapshot) (other : Nat) :
    (s.apply (.set slot snapshot)).1.get? other =
      if other = slot ∧ slot < slotCount then some snapshot else s.get? other := by
  rw [apply]
  by_cases h : slot < slotCount
  · simp only [get?_put h, h, and_true]
  · rw [put_of_ge (Nat.le_of_not_lt h), if_neg fun hs => h hs.2]

theorem spares_nil (slot : Nat) : Spares slot [] :=
  ⟨List.not_mem_nil, fun _ => List.not_mem_nil⟩

theorem spares_cons {c : Change} {history : List Change} : Spares slot (c :: history) ↔
    (c ≠ .reset ∧ ∀ snapshot, c ≠ .set slot snapshot) ∧ Spares slot history := by
  simp only [Spares, List.mem_cons, not_or, forall_and, ne_eq, eq_comm (a := c),
    and_and_and_comm]

theorem not_leaves_nil {snapshot : Snapshot} : ¬ Leaves slot snapshot [] := by
  rintro ⟨-, before, later, h, -⟩
  cases before <;> cases h

theorem leaves_cons {snapshot : Snapshot} {c : Change} {history : List Change} :
    Leaves slot snapshot (c :: history) ↔ Leaves slot snapshot history ∨
      (slot < slotCount ∧ c = .set slot snapshot ∧ Spares slot history) := by
  constructor
  · rintro ⟨hslot, before, later, heq, hlater⟩
    cases before with
    | nil =>
      obtain ⟨rfl, rfl⟩ := List.cons.inj heq
      exact .inr ⟨hslot, rfl, hlater⟩
    | cons first before =>
      obtain ⟨-, rfl⟩ := List.cons.inj heq
      exact .inl ⟨hslot, before, later, rfl, hlater⟩
  · rintro (⟨hslot, before, later, rfl, hlater⟩ | ⟨hslot, rfl, hlater⟩)
    · exact ⟨hslot, c :: before, later, rfl, hlater⟩
    · exact ⟨hslot, [], history, rfl, hlater⟩

/-- After one change a slot holds what was put into it, or what it held if it was spared. -/
theorem get?_apply {s : Store} {c : Change} {snapshot : Snapshot} :
    (s.apply c).1.get? slot = some snapshot ↔
      (slot < slotCount ∧ c = .set slot snapshot) ∨
      (s.get? slot = some snapshot ∧ c ≠ .reset ∧ ∀ other, c ≠ .set slot other) := by
  cases c with
  | reset => simp [apply]
  | set target put =>
    have hlt : s.get? slot = some snapshot → slot < slotCount := lt_of_get?
    rw [get?_apply_set]
    by_cases htarget : slot = target
    · subst htarget
      by_cases hslot : slot < slotCount
      · simp [hslot]
      · simp [hslot, mt hlt hslot]
    · simp [htarget, Ne.symm htarget]

/-- After a history a slot holds what the history left there, or what it held before if the
history spared it. -/
theorem get?_after (s : Store) (history : List Change) (snapshot : Snapshot) :
    (s.after history).get? slot = some snapshot ↔
      Leaves slot snapshot history ∨ (s.get? slot = some snapshot ∧ Spares slot history) := by
  induction history generalizing s with
  | nil => simp [after, spares_nil, not_leaves_nil]
  | cons c later ih =>
    have hstep : s.after (c :: later) = (s.apply c).1.after later := rfl
    rw [hstep, ih, get?_apply, leaves_cons, spares_cons, or_and_right, or_assoc, and_assoc,
      and_assoc]

end

/-- How a store is seen, whichever slot is next. -/
structure Seen (s : Store) : Prop where
  size_eq : s.size = (List.range slotCount).countP fun slot => (s.get? slot).isSome
  parity : ∀ next, s.view next = s.view (next % slotCount)
  empty_iff : ∀ next, s.view next = .empty ↔ s.size = 0
  single_iff : ∀ next, (∃ p, s.view next = .single p) ↔ s.size = 1
  comparison_iff : ∀ next, (∃ p q, s.view next = .comparison p q) ↔ s.size = 2
  /-- Each filled slot has a panel that shows what it holds. -/
  shows : ∀ slot snapshot, s.get? slot = some snapshot → ∀ next, ∃ p ∈ (s.view next).panels,
    p.slot = slot ∧ p.Shows snapshot
  /-- Two snapshots are seen in both orders alike, apart from the labels. -/
  exchanged : s.size = 2 → ∃ p q : Panel, s.view 0 = .comparison p q ∧
    s.view 1 = .comparison { q with label := .newer } { p with label := .older } ∧
    p.label = .newer ∧ q.label = .older ∧ p.slot = 1 ∧ q.slot = 0

theorem size_eq_countP (s : Store) :
    s.size = (List.range slotCount).countP fun slot => (s.get? slot).isSome := by
  obtain ⟨first, second⟩ := s
  cases first <;> cases second <;> rfl

theorem view_mod (s : Store) (next : Nat) : s.view (next % slotCount) = s.view next := by
  simp only [view, Nat.mod_mod]

/-- A view is that of one of the two slots. -/
theorem view_cases (s : Store) (next : Nat) : s.view next = s.view 0 ∨ s.view next = s.view 1 := by
  rw [← view_mod]
  rcases Nat.mod_two_eq_zero_or_one next with h | h
  · exact .inl (congrArg s.view h)
  · exact .inr (congrArg s.view h)

theorem length_panels_view (s : Store) (next : Nat) : (s.view next).panels.length = s.size := by
  obtain ⟨first, second⟩ := s
  rcases view_cases ⟨first, second⟩ next with h | h <;> rw [h] <;>
    cases first <;> cases second <;> rfl

theorem exists_panel {s : Store} {slot : Nat} {snapshot : Snapshot}
    (h : s.get? slot = some snapshot) (next : Nat) :
    ∃ p ∈ (s.view next).panels, p.slot = slot ∧ p.Shows snapshot := by
  have hslot : slot = 1 - next % slotCount ∨ slot = next % slotCount := by
    have hlt : slot < 2 := lt_of_get? h
    rw [slotCount]
    omega
  unfold view
  dsimp only
  rcases hslot with rfl | rfl
  · rw [h]
    cases s.get? (next % slotCount) <;>
      exact ⟨_, List.mem_cons_self, rfl, ofSnapshot_shows ..⟩
  · rw [h]
    cases s.get? (1 - next % slotCount) with
    | none => exact ⟨_, List.mem_cons_self, rfl, ofSnapshot_shows ..⟩
    | some n => exact ⟨_, List.mem_cons_of_mem _ List.mem_cons_self, rfl, ofSnapshot_shows ..⟩

theorem exists_exchanged {s : Store} (h : s.size = 2) : ∃ p q : Panel,
    s.view 0 = .comparison p q ∧
    s.view 1 = .comparison { q with label := .newer } { p with label := .older } ∧
    p.label = .newer ∧ q.label = .older ∧ p.slot = 1 ∧ q.slot = 0 := by
  obtain ⟨_ | first, _ | second⟩ := s
  · cases h
  · cases h
  · cases h
  · exact ⟨_, _, rfl, rfl, rfl, rfl, rfl, rfl⟩

theorem seen (s : Store) : s.Seen where
  size_eq := s.size_eq_countP
  parity next := (s.view_mod next).symm
  empty_iff next := by rw [View.eq_empty_iff, length_panels_view]
  single_iff next := by rw [View.exists_single_iff, length_panels_view]
  comparison_iff next := by rw [View.exists_comparison_iff, length_panels_view]
  shows _ _ := exists_panel
  exchanged := exists_exchanged

/-- What a store is after a history of changes to it. -/
structure Reflects (s : Store) (history : List Change) : Prop extends s.Seen where
  refuses : ∀ slot snapshot, slotCount ≤ slot →
    s.apply (.set slot snapshot) = (s, .error (.invalidHeapSlot slot))
  accepts : ∀ slot snapshot, slot < slotCount → (s.apply (.set slot snapshot)).2 = .ok ()
  get?_iff : ∀ slot snapshot, s.get? slot = some snapshot ↔ Leaves slot snapshot history

/-- After any history a store holds what the history left in its slots and refuses a number
that names none, and it is seen alike for all numbers of the same parity. -/
theorem after_reflects_history (history : List Change) :
    (({} : Store).after history).Reflects history where
  toSeen := seen _
  refuses _ snapshot hslot := put_of_ge hslot _ snapshot
  accepts _ snapshot hslot := put_of_lt hslot _ snapshot
  get?_iff slot snapshot := by
    have hempty : ¬ (({} : Store).get? slot = some snapshot ∧ Spares slot history) := by simp
    rw [get?_after, or_iff_left hempty]

end Store

end ProofStepper.Heap
