import ProofStepper.Graph.Basic
import ProofStepper.Proofs.Graph.Repair

/-!
# State graphs are forests

Whatever parents the records name, the retained parents form a forest: from every step
they lead to a root, and the depth of the step counts the moves. `Sound` keeps what
later modules need of this, one fact for each step, and `IsForest` says it in full.
-/
namespace ProofStepper.StateGraph
open ProofStepper.Graph

/-- The step that a record becomes. -/
def stepOf (forest : Forest) (index shown : Nat) (record : Record) : Step :=
  { index
    record
    parent := parentAt forest.parents index
    depth := forest.depths.getD index 0
    number := if record.isShown then some shown else none }

theorem getElem?_assemble (forest : Forest) (index shown : Nat) (records : List Record) (k : Nat) :
    (assemble forest index shown records)[k]? = records[k]?.map
      (stepOf forest (index + k) (shown + (records.take k).countP Record.isShown)) := by
  induction records generalizing index shown k with
  | nil => simp [assemble]
  | cons record rest ih =>
    cases k with
    | zero => simp [assemble, stepOf]
    | succ k =>
      simp only [assemble, List.getElem?_cons_succ, ih, List.take_succ_cons, List.countP_cons]
      congr 2
      · omega
      · split <;> omega

/-- The forest of the parents that a list of records names. -/
def forestOf (records : List Record) : Forest := .ofRecorded (records.map (·.parent))

theorem step?_ofRecords (records : List Record) (i : Nat) :
    (ofRecords records).step? i = records[i]?.map
      (stepOf (forestOf records) i ((records.take i).countP Record.isShown)) := by
  simp only [step?, ofRecords, getElem?_assemble, Nat.zero_add]
  rfl

theorem step?_isSome_iff (records : List Record) (i : Nat) :
    (∃ s, (ofRecords records).step? i = some s) ↔ i < records.length := by
  simp only [step?_ofRecords, Option.map_eq_some_iff]
  constructor
  · rintro ⟨_, r, hr, -⟩
    exact (List.getElem?_eq_some_iff.mp hr).choose
  · intro h
    exact ⟨_, _, List.getElem?_eq_getElem h, rfl⟩

section
variable {records : List Record} {i : Nat} {s : Step}

theorem eq_stepOf (hs : (ofRecords records).step? i = some s) :
    records[i]? = some s.record ∧
      s = stepOf (forestOf records) i ((records.take i).countP Record.isShown) s.record := by
  simp only [step?_ofRecords, Option.map_eq_some_iff] at hs
  obtain ⟨r, hr, rfl⟩ := hs
  exact ⟨hr, rfl⟩

theorem parent_eq (hs : (ofRecords records).step? i = some s) :
    s.parent = parentAt (forestOf records).parents i := by
  rw [(eq_stepOf hs).2]
  rfl

theorem depth_eq (hs : (ofRecords records).step? i = some s) :
    s.depth = (forestOf records).depths.getD i 0 := by
  rw [(eq_stepOf hs).2]
  rfl

/-- A retained parent is the one that the record names. -/
theorem parent_recorded (hs : (ofRecords records).step? i = some s) {p : Nat}
    (hp : s.parent = some p) : s.record.parent = some p ∧ p < records.length := by
  rw [parent_eq hs] at hp
  obtain ⟨h, hlt⟩ := Forest.parent_retained hp
  simp only [parentAt, List.getElem?_map, (eq_stepOf hs).1, Option.map_some] at h
  exact ⟨h, by simpa using hlt⟩

end

section
variable {lists : List (List Nat)} {p : Nat}

theorem length_enlist (lists : List (List Nat)) (s : Step) :
    (enlist lists s).length = lists.length := by
  unfold enlist
  split
  · rfl
  · exact List.length_modify ..

theorem getD_enlist (h : p < lists.length) (s : Step) :
    (enlist lists s).getD p [] =
      lists.getD p [] ++ if s.parent = some p then [s.index] else [] := by
  unfold enlist
  cases hparent : s.parent with
  | none => simp
  | some q =>
    by_cases hq : q = p
    · subst hq
      simp [List.getD_eq_getElem?_getD, h]
    · simp [List.getD_eq_getElem?_getD, hq]

/-- The loop adds to the list of each step those whose parent it is, in their order. -/
theorem getD_foldl_enlist (h : p < lists.length) (steps : List Step) :
    (steps.foldl enlist lists).getD p [] =
      lists.getD p [] ++ (steps.filter fun s => s.parent = some p).map (·.index) := by
  induction steps generalizing lists with
  | nil => simp
  | cons s later ih =>
    rw [List.foldl_cons, ih (by rwa [length_enlist]), getD_enlist h, List.append_assoc,
      List.filter_cons]
    split <;> simp_all

theorem length_enlistAll (steps : List Step) : (enlistAll steps).length = steps.length := by
  have hkept : ∀ lists, (steps.foldl enlist lists).length = lists.length := by
    intro lists
    induction steps generalizing lists with
    | nil => rfl
    | cons s later ih => rw [List.foldl_cons, ih, length_enlist]
  rw [enlistAll, hkept, List.length_map]

end

/-- The list that is kept for a step holds the steps whose retained parent it is. -/
theorem children_ofRecords (records : List Record) (p : Nat) :
    (ofRecords records).children p =
      ((ofRecords records).steps.filter fun s => s.parent = some p).map (·.index) := by
  change (enlistAll (ofRecords records).steps).getD p [] = _
  by_cases hp : p < (ofRecords records).steps.length
  · have hempty : p < ((ofRecords records).steps.map fun _ => ([] : List Nat)).length := by
      rwa [List.length_map]
    rw [enlistAll, getD_foldl_enlist hempty]
    simp [List.getD_eq_getElem?_getD, hp]
  · have hnone : (ofRecords records).steps.filter (fun s => s.parent = some p) = [] := by
      refine List.filter_eq_nil_iff.mpr fun s hs hparent => hp ?_
      obtain ⟨i, hi⟩ := List.mem_iff_getElem?.mp hs
      have hlt := (parent_recorded hi (of_decide_eq_true hparent)).2
      obtain ⟨t, ht⟩ := (step?_isSome_iff records p).mpr hlt
      exact (List.getElem?_eq_some_iff.mp ht).choose
    have hlength := length_enlistAll (ofRecords records).steps
    rw [hnone, List.getD_eq_getElem?_getD, List.getElem?_eq_none (by omega)]
    rfl

/-- What is known of each step of a graph: it lies at its index, a step is a root of depth
zero or lies one below its parent, and it is kept among the children of that parent alone. -/
structure Sound (g : StateGraph) : Prop where
  index {i : Nat} {s : Step} : g.step? i = some s → s.index = i
  root {i : Nat} {s : Step} : g.step? i = some s → s.parent = none → s.depth = 0
  below {i p : Nat} {s : Step} : g.step? i = some s → s.parent = some p →
    ∃ t, g.step? p = some t ∧ s.depth = t.depth + 1
  children (p : Nat) : g.children p = (g.steps.filter fun s => s.parent = some p).map (·.index)

theorem ofRecords_sound (records : List Record) : (ofRecords records).Sound := by
  have hdepth {i : Nat} {s : Step} (hs : (ofRecords records).step? i = some s) :=
    Forest.depth_spec (records.map (·.parent)) (i := i)
      (by simpa using (step?_isSome_iff records i).mp ⟨s, hs⟩)
  refine ⟨?_, ?_, ?_, children_ofRecords records⟩
  · intro i s hs
    rw [(eq_stepOf hs).2]
    rfl
  · intro i s hs hp
    have h := hdepth hs
    rw [parent_eq hs] at hp
    simp only [forestOf] at hp
    rw [hp] at h
    rw [depth_eq hs]
    exact h
  · intro i p s hs hp
    obtain ⟨t, ht⟩ := (step?_isSome_iff records p).mpr (parent_recorded hs hp).2
    have h := hdepth hs
    rw [parent_eq hs] at hp
    simp only [forestOf] at hp
    rw [hp] at h
    refine ⟨t, ht, ?_⟩
    rw [depth_eq hs, depth_eq ht]
    exact h

/-- The retained parent of step `i` is step `p`. -/
def Up (g : StateGraph) (i p : Nat) : Prop := ∃ s, g.step? i = some s ∧ s.parent = some p

def IsRoot (g : StateGraph) (i : Nat) : Prop := ∃ s, g.step? i = some s ∧ s.parent = none

/-- A number of moves, each to the retained parent, leads from one step to another. -/
inductive Ascends (g : StateGraph) : Nat → Nat → Nat → Prop
  | here (i : Nat) : Ascends g i 0 i
  | up {i p k r : Nat} : g.Up i p → Ascends g p k r → Ascends g i (k + 1) r

theorem Ascends.trans {g : StateGraph} {i j k m r : Nat} (h : g.Ascends i k j)
    (h' : g.Ascends j m r) : g.Ascends i (k + m) r := by
  induction h with
  | here i => simpa using h'
  | @up i p k j hup _ ih =>
    rw [Nat.add_right_comm]
    exact .up hup (ih h')

/-- Each move up lowers the depth by one. -/
theorem Sound.depth_ascends {g : StateGraph} (h : g.Sound) {i k r : Nat} {s t : Step}
    (ha : g.Ascends i k r) (hs : g.step? i = some s) (ht : g.step? r = some t) :
    s.depth = t.depth + k := by
  induction ha generalizing s with
  | here i =>
    rw [hs] at ht
    cases ht
    rfl
  | up hup _ ih =>
    obtain ⟨u, hu, hp⟩ := hup
    rw [hs] at hu
    cases hu
    obtain ⟨v, hv, hd⟩ := h.below hs hp
    have := ih hv ht
    omega

theorem Sound.reaches_root {g : StateGraph} (h : g.Sound) {i : Nat} {s : Step}
    (hs : g.step? i = some s) : ∃ r, g.Ascends i s.depth r ∧ g.IsRoot r := by
  generalize hd : s.depth = d
  induction d generalizing i s with
  | zero =>
    cases hp : s.parent with
    | none => exact ⟨i, .here i, s, hs, hp⟩
    | some p =>
      obtain ⟨t, -, ht⟩ := h.below hs hp
      omega
  | succ d ih =>
    cases hp : s.parent with
    | none =>
      have := h.root hs hp
      omega
    | some p =>
      obtain ⟨t, ht, htd⟩ := h.below hs hp
      obtain ⟨r, hr, hroot⟩ := ih ht (by omega)
      exact ⟨r, .up ⟨s, hs, hp⟩ hr, hroot⟩

/-- A root is met after exactly as many moves as the depth says. -/
theorem Sound.depth_of_ascends {g : StateGraph} (h : g.Sound) {i k r : Nat}
    (ha : g.Ascends i k r) (hroot : g.IsRoot r) : ∃ s, g.step? i = some s ∧ s.depth = k := by
  induction ha with
  | here i =>
    obtain ⟨s, hs, hp⟩ := hroot
    exact ⟨s, hs, h.root hs hp⟩
  | up hup _ ih =>
    obtain ⟨s, hs, hp⟩ := hup
    obtain ⟨t, ht, hd⟩ := ih hroot
    obtain ⟨u, hu, hsu⟩ := h.below hs hp
    rw [ht] at hu
    cases hu
    exact ⟨s, hs, by omega⟩

theorem Sound.steps_sorted {g : StateGraph} (h : g.Sound) :
    g.steps.Pairwise fun s t => s.index < t.index := by
  rw [List.pairwise_iff_getElem]
  intro i j hi hj hij
  rw [h.index (List.getElem?_eq_getElem hi), h.index (List.getElem?_eq_getElem hj)]
  exact hij

theorem Sound.mem_steps {g : StateGraph} (h : g.Sound) {s : Step} :
    s ∈ g.steps ↔ g.step? s.index = some s := by
  constructor
  · intro hs
    obtain ⟨i, hi⟩ := List.mem_iff_getElem?.mp hs
    rw [← h.index hi] at hi
    exact hi
  · exact List.mem_of_getElem?

theorem Sound.mem_children {g : StateGraph} (h : g.Sound) {p i : Nat} :
    i ∈ g.children p ↔ g.Up i p := by
  simp only [h.children, List.mem_map, List.mem_filter, decide_eq_true_eq]
  constructor
  · rintro ⟨s, ⟨hs, hp⟩, rfl⟩
    exact ⟨s, h.mem_steps.mp hs, hp⟩
  · rintro ⟨s, hs, hp⟩
    exact ⟨s, ⟨List.mem_of_getElem? hs, hp⟩, h.index hs⟩

theorem Sound.children_sorted {g : StateGraph} (h : g.Sound) (p : Nat) :
    (g.children p).Pairwise (· < ·) := by
  rw [h.children]
  exact List.pairwise_map.mpr (h.steps_sorted.filter _)

/-- The graph of a list of records is a forest over them. -/
structure IsForest (records : List Record) (g : StateGraph) : Prop where
  record : g.steps.map (·.record) = records
  index : ∀ i s, g.step? i = some s → s.index = i
  retained : ∀ i s p, g.step? i = some s → s.parent = some p →
    p < records.length ∧ s.record.parent = some p
  reaches_root : ∀ i < records.length, ∃ k r, g.Ascends i k r ∧ g.IsRoot r
  depth_eq_moves : ∀ i k, g.depth? i = some k ↔ ∃ r, g.Ascends i k r ∧ g.IsRoot r
  depth_zero : ∀ i s, g.step? i = some s → (s.depth = 0 ↔ s.parent = none)
  depth_succ : ∀ i s p, g.step? i = some s → s.parent = some p →
    ∃ t, g.step? p = some t ∧ s.depth = t.depth + 1
  children_sorted : ∀ p, (g.children p).Pairwise (· < ·)
  mem_children : ∀ p i, i ∈ g.children p ↔ ∃ s, g.step? i = some s ∧ s.parent = some p

/-- Any records make a forest, also those whose parents lie outside of the log, are
steps themselves or form cycles. -/
theorem ofRecords_isForest (records : List Record) : (ofRecords records).IsForest records := by
  have h := ofRecords_sound records
  refine ⟨?_, fun _ _ => h.index, ?_, ?_, ?_, ?_, fun _ _ _ => h.below, h.children_sorted,
    fun _ _ => h.mem_children⟩
  · apply List.ext_getElem?
    intro i
    have hi := step?_ofRecords records i
    simp only [step?] at hi
    rw [List.getElem?_map, hi]
    cases records[i]? <;> rfl
  · intro i s p hs hp
    exact (parent_recorded hs hp).symm
  · intro i hi
    obtain ⟨s, hs⟩ := (step?_isSome_iff records i).mpr hi
    obtain ⟨r, hr⟩ := h.reaches_root hs
    exact ⟨s.depth, r, hr⟩
  · intro i k
    simp only [depth?, Option.map_eq_some_iff]
    constructor
    · rintro ⟨s, hs, rfl⟩
      exact h.reaches_root hs
    · rintro ⟨r, hr, hroot⟩
      exact h.depth_of_ascends hr hroot
  · intro i s hs
    constructor
    · intro hd
      by_contra hp
      obtain ⟨p, hp⟩ := Option.ne_none_iff_exists'.mp hp
      obtain ⟨t, -, ht⟩ := h.below hs hp
      omega
    · exact h.root hs

end ProofStepper.StateGraph
