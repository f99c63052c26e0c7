import ProofStepper.Proofs.Graph.Forest
import ProofStepper.Run

/-!
# The client numbering

A graph counts its shown steps while it is made, and a run lists them afterwards. Both
numberings are the same: the list has a step at a place exactly if the step bears the
number of the place. So each number below the number of shown steps stands for one of
them, in their order, and no other number stands for a step.
-/
namespace ProofStepper

namespace StateGraph

theorem number_eq {records : List Record} {i : Nat} {s : Step}
    (hs : (ofRecords records).step? i = some s) :
    s.number = if s.isShown then some ((records.take i).countP Record.isShown) else none := by
  rw [(eq_stepOf hs).2]
  rfl

theorem isShown_of_number {records : List Record} {i n : Nat} {s : Step}
    (hs : (ofRecords records).step? i = some s) (hn : s.number = some n) : s.isShown = true := by
  by_contra h
  rw [number_eq hs, if_neg h] at hn
  cases hn

/-- The shown steps of a part of a log bear consecutive numbers. -/
theorem number_of_filter (forest : Graph.Forest) (index shown : Nat) (records : List Record)
    (n : Nat) {s : Step}
    (h : ((assemble forest index shown records).filter Step.isShown)[n]? = some s) :
    s.number = some (shown + n) := by
  induction records generalizing index shown n with
  | nil => simp [assemble] at h
  | cons record rest ih =>
    by_cases hr : record.isShown = true
    · simp only [assemble, hr, if_true] at h
      rw [List.filter_cons_of_pos (by simpa [Step.isShown] using hr)] at h
      cases n with
      | zero =>
        obtain rfl := by simpa using h
        rfl
      | succ n =>
        rw [ih (index + 1) (shown + 1) n (by simpa using h)]
        congr 1
        omega
    · simp only [assemble, hr] at h
      rw [List.filter_cons_of_neg (by simpa [Step.isShown] using hr)] at h
      exact ih (index + 1) shown n (by simpa using h)

end StateGraph

namespace Run

variable {records : List Record}

theorem shown_getElem?_iff {n i : Nat} : (ofRecords records).shown[n]? = some i ↔
    ∃ s, (ofRecords records).graph.step? i = some s ∧ s.number = some n := by
  have hsound := StateGraph.ofRecords_sound records
  have hnumber : ∀ (m : Nat) (s : Step),
      ((StateGraph.ofRecords records).steps.filter Step.isShown)[m]? = some s →
      s.number = some m := by
    intro m s hs
    simpa using StateGraph.number_of_filter _ 0 0 records m hs
  simp only [ofRecords, shownSteps, List.getElem?_map, Option.map_eq_some_iff]
  constructor
  · rintro ⟨s, hs, rfl⟩
    have hmem := List.mem_of_mem_filter (List.mem_of_getElem? hs)
    exact ⟨s, hsound.mem_steps.mp hmem, hnumber n s hs⟩
  · rintro ⟨s, hs, hn⟩
    have hmem : s ∈ (StateGraph.ofRecords records).steps.filter Step.isShown :=
      List.mem_filter.mpr ⟨List.mem_of_getElem? hs, StateGraph.isShown_of_number hs hn⟩
    obtain ⟨m, hm⟩ := List.mem_iff_getElem?.mp hmem
    have hmn := hnumber m s hm
    rw [hn] at hmn
    cases hmn
    exact ⟨s, hm, hsound.index hs⟩

theorem shown_sorted : (ofRecords records).shown.Pairwise (· < ·) :=
  List.pairwise_map.mpr ((StateGraph.ofRecords_sound records).steps_sorted.filter _)

/-- Later steps have larger numbers. -/
theorem number_lt {i j m n : Nat} {s t : Step} (hij : i < j)
    (hs : (ofRecords records).graph.step? i = some s) (hm : s.number = some m)
    (ht : (ofRecords records).graph.step? j = some t) (hn : t.number = some n) : m < n := by
  obtain ⟨hlm, him⟩ := List.getElem?_eq_some_iff.mp (shown_getElem?_iff.mpr ⟨s, hs, hm⟩)
  obtain ⟨hln, hjn⟩ := List.getElem?_eq_some_iff.mp (shown_getElem?_iff.mpr ⟨t, ht, hn⟩)
  by_contra hle
  rcases Nat.lt_or_ge n m with hlt | hge
  · have := List.pairwise_iff_getElem.mp shown_sorted n m hln hlm hlt
    omega
  · obtain rfl : m = n := by omega
    omega

/-- A number stands for the step that bears it. -/
theorem step_eq_ok_iff {n : Nat} {s : Step} : (ofRecords records).step n = .ok s ↔
    (ofRecords records).graph.step? s.index = some s ∧ s.number = some n := by
  have hindex := fun i t => (StateGraph.ofRecords_sound records).index (i := i) (s := t)
  simp only [step, stepIndex?]
  constructor
  · intro h
    split at h
    · rename_i t ht
      cases h
      obtain ⟨i, hi, hs⟩ := Option.bind_eq_some_iff.mp ht
      obtain ⟨t, ht, hn⟩ := shown_getElem?_iff.mp hi
      rw [hs] at ht
      cases ht
      rw [hindex i s hs]
      exact ⟨hs, hn⟩
    · cases h
  · rintro ⟨hs, hn⟩
    rw [shown_getElem?_iff.mpr ⟨s, hs, hn⟩, Option.bind_some, hs]

theorem step_of_lt {n : Nat} (h : n < (ofRecords records).shown.length) :
    ∃ s, (ofRecords records).step n = .ok s := by
  obtain ⟨s, hs, hn⟩ := shown_getElem?_iff.mp (List.getElem?_eq_getElem h)
  have hi := (StateGraph.ofRecords_sound records).index hs
  exact ⟨s, step_eq_ok_iff.mpr ⟨by rwa [hi], hn⟩⟩

theorem shown_length : (ofRecords records).shown.length = records.countP Record.isShown := by
  have hrecords := (StateGraph.ofRecords_isForest records).record
  have hsame : Step.isShown = Record.isShown ∘ Step.record := rfl
  simp only [ofRecords, shownSteps, List.length_map, ← List.countP_eq_length_filter]
  rw [hsame, ← List.countP_map, hrecords]

/-- The number of a shown record counts the shown records before it. -/
theorem number_of_shown {i : Nat} {s : Step} (hs : (ofRecords records).graph.step? i = some s)
    (hshown : s.isShown = true) : s.number = some ((records.take i).countP Record.isShown) := by
  rw [StateGraph.number_eq hs, if_pos hshown]

theorem step_of_ge {n : Nat} (h : records.countP Record.isShown ≤ n) :
    (ofRecords records).step n =
      .error (.unknownClientState n (records.countP Record.isShown)) := by
  have hnone : (ofRecords records).stepIndex? n = none :=
    List.getElem?_eq_none (by rw [shown_length]; exact h)
  rw [step, hnone, Option.bind_none, shown_length]

/-- A run knows the shown records of a log by consecutive numbers, in the order of the log. -/
structure Numbers (r : Run) (records : List Record) : Prop where
  length : r.shown.length = records.countP Record.isShown
  sorted : r.shown.Pairwise (· < ·)
  number_iff : ∀ n i : Nat, r.shown[n]? = some i ↔
    ∃ s, r.graph.step? i = some s ∧ s.number = some n
  hidden : ∀ (i : Nat) (s : Step), r.graph.step? i = some s →
    (s.number = none ↔ s.isShown = false)
  unique : ∀ i : Nat, (∃ record, records[i]? = some record ∧ record.isShown = true) ↔
    ∃! n : Nat, r.shown[n]? = some i
  resolved : ∀ n < records.countP Record.isShown, ∃ i s, r.step n = .ok s ∧
    r.graph.step? i = some s ∧ records[i]? = some s.record ∧ s.isShown = true ∧
    (records.take i).countP Record.isShown = n
  unknown : ∀ n, records.countP Record.isShown ≤ n →
    r.step n = .error (.unknownClientState n (records.countP Record.isShown))

/-- In the run of any log the numbers that the graph gives to its steps and the places of
the list of shown steps are the same, and a number leads to the step that bears it. -/
theorem ofRecords_numbers (records : List Record) : (ofRecords records).Numbers records where
  length := shown_length
  sorted := shown_sorted
  number_iff _ _ := shown_getElem?_iff
  hidden i s hs := by
    rw [StateGraph.number_eq hs]
    cases s.isShown <;> simp
  unique i := by
    constructor
    · rintro ⟨record, hrecord, hshown⟩
      obtain ⟨s, hs⟩ := (StateGraph.step?_isSome_iff records i).mpr
        (List.getElem?_eq_some_iff.mp hrecord).choose
      have hsame := (StateGraph.eq_stepOf hs).1
      rw [hrecord] at hsame
      cases hsame
      have hnumber := number_of_shown hs hshown
      refine ⟨_, shown_getElem?_iff.mpr ⟨s, hs, hnumber⟩, fun n hn => ?_⟩
      obtain ⟨t, ht, hn⟩ := shown_getElem?_iff.mp hn
      have hst : s = t := Option.some.inj (hs.symm.trans ht)
      rw [← hst, hnumber] at hn
      exact (Option.some.inj hn).symm
    · rintro ⟨n, hn, -⟩
      obtain ⟨s, hs, hn⟩ := shown_getElem?_iff.mp hn
      exact ⟨s.record, (StateGraph.eq_stepOf hs).1, StateGraph.isShown_of_number hs hn⟩
  resolved n hn := by
    rw [← shown_length] at hn
    obtain ⟨s, hs⟩ := step_of_lt hn
    obtain ⟨hstep, hnumber⟩ := step_eq_ok_iff.mp hs
    have hshown := StateGraph.isShown_of_number hstep hnumber
    rw [number_of_shown hstep hshown] at hnumber
    exact ⟨s.index, s, hs, hstep, (StateGraph.eq_stepOf hstep).1, hshown, Option.some.inj hnumber⟩
  unknown _ := step_of_ge

end Run

end ProofStepper
