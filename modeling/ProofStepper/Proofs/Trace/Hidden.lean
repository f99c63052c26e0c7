import Mathlib.Data.Finset.Basic
import ProofStepper.Proofs.Trace.Alongside
import ProofStepper.Proofs.Trace.Suffix

/-!
# States that a trace passes over

Where a walk goes does not depend on which states may be shown. A shown state that the
trace of another one does not report is deeper than the bound when the walk comes to it,
or the walk does not come to it, and so it never lowers the bound. If such states may no
longer be shown, the client knows the others by different numbers, but the trace reports
the same steps.
-/
namespace ProofStepper

/-- A log of which the states at some indices may no longer be shown. -/
def withHidden (hidden : Finset Nat) (records : List Record) : List Record :=
  records.mapIdx fun i record => if i ∈ hidden then { record with isShown := false } else record

section
variable {hidden : Finset Nat} {records : List Record}

theorem getElem?_withHidden (hidden : Finset Nat) (records : List Record) (i : Nat) :
    (withHidden hidden records)[i]? = records[i]?.map fun record =>
      if i ∈ hidden then { record with isShown := false } else record :=
  List.getElem?_mapIdx

theorem map_parent_withHidden (hidden : Finset Nat) (records : List Record) :
    (withHidden hidden records).map (·.parent) = records.map (·.parent) := by
  apply List.ext_getElem?
  intro i
  simp only [List.getElem?_map, getElem?_withHidden, Option.map_map]
  congr 1
  funext record
  simp only [Function.comp_apply, apply_ite Record.parent, ite_self]

end

namespace StateGraph
variable {hidden : Finset Nat} {records : List Record} {s t : Step}

/-- What is known of the steps of a log of which some states were hidden. -/
structure Hides (hidden : Finset Nat) (s t : Step) : Prop where
  parent : t.parent = s.parent
  depth : t.depth = s.depth
  isBranch : t.isBranch = s.isBranch
  isShown : t.isShown = true ↔ s.isShown = true ∧ s.index ∉ hidden

/-- Hiding leaves the forest of a log and the kinds of its states as they are. -/
theorem hides_of_beside
    (hst : (ofRecords records).Beside (ofRecords (withHidden hidden records)) s t) :
    Hides hidden s t := by
  have hforest : forestOf (withHidden hidden records) = forestOf records := by
    rw [forestOf, map_parent_withHidden, forestOf]
  have hrecord := (eq_stepOf hst.right).1
  rw [getElem?_withHidden, (eq_stepOf hst.left).1, Option.map_some] at hrecord
  constructor
  · rw [parent_eq hst.left, parent_eq hst.right, hforest]
  · rw [depth_eq hst.left, depth_eq hst.right, hforest]
  · rw [Step.isBranch, ← Option.some.inj hrecord, Step.isBranch]
    split <;> rfl
  · rw [Step.isShown, ← Option.some.inj hrecord, Step.isShown]
    split <;> simp_all

theorem exists_beside_withHidden (hidden : Finset Nat)
    (hs : (ofRecords records).step? s.index = some s) :
    ∃ t, (ofRecords records).Beside (ofRecords (withHidden hidden records)) s t := by
  have hlt := (step?_isSome_iff records s.index).mp ⟨s, hs⟩
  obtain ⟨t, ht⟩ := (step?_isSome_iff (withHidden hidden records) s.index).mpr
    (by rwa [withHidden, List.length_mapIdx])
  exact ⟨t, hs, ht⟩

theorem withHidden_mirrors (hidden : Finset Nat) (records : List Record) :
    (ofRecords (withHidden hidden records)).Mirrors (ofRecords records) where
  exists_beside _ hs := exists_beside_withHidden hidden hs
  parent _ _ hst := (hides_of_beside hst).parent
  isBranch _ _ hst := (hides_of_beside hst).isBranch

end StateGraph

/-- If the steps that are within the bound remain shown and no other one comes to be shown,
the same ones are within it: a step that was passed over did not lower it. -/
theorem withinBound_forall₂ {R : Step → Step → Prop} {steps steps' : List Step}
    (h : List.Forall₂ R steps steps') (depth : ∀ s t, R s t → t.depth = s.depth)
    (shown : ∀ s t, R s t → t.isShown = true → s.isShown = true) (bound : Nat)
    (kept : ∀ s ∈ withinBound bound steps, ∀ t, R s t → t.isShown = true) :
    List.Forall₂ R (withinBound bound steps) (withinBound bound steps') := by
  induction h generalizing bound with
  | nil => exact .nil
  | @cons s t rest rest' hst _ ih =>
    rw [withinBound] at kept
    rw [withinBound, withinBound, depth s t hst]
    by_cases hs : s.isShown = true ∧ s.depth ≤ bound
    · rw [if_pos hs, List.forall_mem_cons] at kept
      rw [if_pos hs, if_pos ⟨kept.1 t hst, hs.2⟩]
      exact .cons hst (ih s.depth kept.2)
    · rw [if_neg hs] at kept
      rw [if_neg hs, if_neg fun ht => hs ⟨shown s t hst ht.1, ht.2⟩]
      exact ih bound kept

namespace Run
open StateGraph
variable {records : List Record} {number : Nat} {target : Step}

/-- The entries of a trace stand for the steps at some indices of a run. -/
def StandsFor (r : Run) (t : Trace) (indices : List Nat) : Prop :=
  t.states.map r.stepIndex? = indices.map some

theorem stepIndex?_eq_some_iff {n i : Nat} : (ofRecords records).stepIndex? n = some i ↔
    ∃ s, (ofRecords records).graph.step? i = some s ∧ s.number = some n :=
  shown_getElem?_iff

theorem standsFor_entries (colour : String) {steps : List Step}
    (h : ∀ s ∈ steps, (ofRecords records).graph.step? s.index = some s ∧ s.number.isSome) :
    (ofRecords records).StandsFor (entries colour steps) (steps.map (·.index)) := by
  rw [StandsFor, states_entries]
  induction steps with
  | nil => rfl
  | cons s rest ih =>
    obtain ⟨⟨hstep, hsome⟩, hrest⟩ := List.forall_mem_cons.mp h
    obtain ⟨n, hn⟩ := Option.isSome_iff_exists.mp hsome
    have hindex := stepIndex?_eq_some_iff.mpr ⟨s, hstep, hn⟩
    rw [List.filterMap_cons_some hn, List.map_cons, ih hrest, hindex, List.map_cons, List.map_cons]

theorem simple_trace_standsFor (h : (ofRecords records).step number = .ok target) (dark : Bool) :
    ∃ t, (ofRecords records).trace number { mode := .simple, dark } = .ok t ∧
      (ofRecords records).StandsFor t (((ofRecords records).reported target).map (·.index)) :=
  ⟨_, trace_of_step h dark, standsFor_entries (Colour.accent dark) (reported_numbered h)⟩

/-- What is reported for a step and for the one beside it lies beside each other, if nothing
that is reported for it was hidden. -/
theorem reported_withHidden {hidden : Finset Nat} {target' : Step}
    (hbeside : (ofRecords records).graph.Beside (ofRecords (withHidden hidden records)).graph
      target target')
    (hkept : ∀ s ∈ (ofRecords records).reported target, s.isShown = true ∧ s.index ∉ hidden) :
    List.Forall₂ ((ofRecords records).graph.Beside (ofRecords (withHidden hidden records)).graph)
      ((ofRecords records).reported target)
      ((ofRecords (withHidden hidden records)).reported target') := by
  rw [reported, reported, (hides_of_beside hbeside).depth]
  have hwalk := ((withHidden_mirrors hidden records).walk (ofRecords_sound records)
    (ofRecords_sound (withHidden hidden records)) hbeside).1
  exact withinBound_forall₂ hwalk (fun _ _ h => (hides_of_beside h).depth)
    (fun _ _ h ht => ((hides_of_beside h).isShown.mp ht).1) target.depth
    fun s hs t h => (hides_of_beside h).isShown.mpr (hkept s hs)

theorem indices_reported_withHidden {hidden : Finset Nat} {target' : Step}
    (hbeside : (ofRecords records).graph.Beside (ofRecords (withHidden hidden records)).graph
      target target')
    (hkept : ∀ s ∈ (ofRecords records).reported target, s.isShown = true ∧ s.index ∉ hidden) :
    ((ofRecords (withHidden hidden records)).reported target').map (·.index) =
      ((ofRecords records).reported target).map (·.index) := by
  have hsound : (ofRecords (withHidden hidden records)).graph.Sound :=
    ofRecords_sound (withHidden hidden records)
  have hsame := (reported_withHidden hbeside hkept).imp fun _ _ hst => hsound.beside_index hst
  rw [← List.forall₂_eq_eq_eq, List.forall₂_map_left_iff, List.forall₂_map_right_iff]
  exact hsame.flip

/-- Whichever of the states are hidden that the simple trace of a client state does not
report, the state remains known to the client, by one number, and its simple trace stands
for the same steps. -/
theorem simple_trace_withHidden (h : number < (ofRecords records).shown.length) (dark : Bool) :
    ∃ t indices, (ofRecords records).trace number { mode := .simple, dark } = .ok t ∧
      (ofRecords records).StandsFor t indices ∧
      ∀ hidden : Finset Nat, (∀ i ∈ indices, i ∉ hidden) →
        ∃ number' t', (∀ n, (ofRecords (withHidden hidden records)).stepIndex? n =
            (ofRecords records).stepIndex? number ↔ n = number') ∧
          (ofRecords (withHidden hidden records)).trace number' { mode := .simple, dark } = .ok t' ∧
          (ofRecords (withHidden hidden records)).StandsFor t' indices := by
  obtain ⟨target, htarget⟩ := step_of_lt h
  obtain ⟨hstep, hnumber⟩ := step_eq_ok_iff.mp htarget
  obtain ⟨t, ht, hstands⟩ := simple_trace_standsFor htarget dark
  refine ⟨t, _, ht, hstands, fun hidden hfree => ?_⟩
  have hkept : ∀ s ∈ (ofRecords records).reported target, s.isShown = true ∧ s.index ∉ hidden :=
    fun s hs => ⟨isShown_of_mem_withinBound s hs, hfree _ (List.mem_map_of_mem hs)⟩
  obtain ⟨target', hbeside⟩ := exists_beside_withHidden hidden hstep
  have hshown' : target'.isShown = true := by
    have hself := mem_reported_self (ofRecords records) (StateGraph.isShown_of_number hstep hnumber)
    exact (hides_of_beside hbeside).isShown.mpr (hkept target hself)
  have hnumber' := number_of_shown hbeside.right hshown'
  have htarget' := step_eq_ok_iff.mpr
    ⟨(ofRecords_sound (withHidden hidden records)).beside_step? hbeside, hnumber'⟩
  obtain ⟨t', ht', hstands'⟩ := simple_trace_standsFor htarget' dark
  rw [indices_reported_withHidden hbeside hkept] at hstands'
  refine ⟨_, t', fun n => ?_, ht', hstands'⟩
  rw [stepIndex?_eq_some_iff.mpr ⟨target, hstep, hnumber⟩, stepIndex?_eq_some_iff]
  constructor
  · rintro ⟨s, hs, hn⟩
    obtain rfl : s = target' := Option.some.inj (hs.symm.trans hbeside.right)
    exact Option.some.inj (hn.symm.trans hnumber')
  · rintro rfl
    exact ⟨target', hbeside.right, hnumber'⟩

example : ((ofRecords (withHidden {1, 2, 4} passedOverLog)).trace 3 {}).map Trace.states =
    .ok [3, 2, 1, 0] := by
  cbv

/-- The trace of the last state of `passedOverLog` passes over the state at index 4, and its
walk does not come to the one at index 1. The branch at index 2 is hidden already. -/
theorem simple_trace_withHidden_passed_over :
    5 < (ofRecords passedOverLog).shown.length ∧
      ∃ t indices, (ofRecords passedOverLog).trace 5 { mode := .simple, dark := true } = .ok t ∧
        (ofRecords passedOverLog).StandsFor t indices ∧
        (∀ i ∈ indices, i ∉ ({1, 2, 4} : Finset Nat)) ∧
        ∃ number' t',
          (∀ n, (ofRecords (withHidden {1, 2, 4} passedOverLog)).stepIndex? n =
            (ofRecords passedOverLog).stepIndex? 5 ↔ n = number') ∧
          (ofRecords (withHidden {1, 2, 4} passedOverLog)).trace number'
            { mode := .simple, dark := true } = .ok t' ∧
          (ofRecords (withHidden {1, 2, 4} passedOverLog)).StandsFor t' indices := by
  have h : 5 < (ofRecords passedOverLog).shown.length := by decide
  have htrace : (ofRecords passedOverLog).trace 5 { mode := .simple, dark := true } =
      .ok [⟨5, "yellow", true⟩, ⟨4, "yellow", true⟩, ⟨2, "yellow", true⟩, ⟨0, "yellow", true⟩] := by
    decide +kernel
  obtain ⟨t, indices, ht, hstands, hhidden⟩ := simple_trace_withHidden h true
  rw [htrace] at ht
  cases ht
  have hindices : [7, 5, 3, 0].map some = indices.map some := by
    rw [← hstands]
    decide
  obtain rfl := (Option.some_injective Nat).list_map hindices
  exact ⟨h, _, _, htrace, hstands, by decide, hhidden {1, 2, 4} (by decide)⟩

end Run

end ProofStepper
