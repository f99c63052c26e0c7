import Mathlib.Data.List.Forall2
import ProofStepper.Proofs.Trace.Simple

/-!
# Traces that continue in others

From a step on its way a walk goes on as the walk that starts there. Whenever a step is
reported, the bound has become its depth, and that is the bound with which a trace of the
step itself would begin. So a simple trace is, from any of its entries on, the simple trace
of the state of that entry.
-/
namespace ProofStepper

namespace StateGraph
variable {g : StateGraph}

theorem head?_walk (g : StateGraph) (s : Step) : (g.walk s).steps.head? = some s := by
  rw [walk]
  split
  · rfl
  · split <;> rfl

/-- What follows a step on a walk does not depend on where the walk began. -/
theorem walk_of_append {target s : Step} {earlier later : List Step}
    (h : (g.walk target).steps = earlier ++ s :: later) : (g.walk s).steps = s :: later := by
  induction earlier generalizing target with
  | nil =>
    have hstart := g.head?_walk target
    rw [h] at hstart
    obtain rfl : s = target := Option.some.inj hstart
    exact h
  | cons t earlier ih =>
    rw [walk] at h
    split at h
    · simp at h
    · split at h
      · rw [List.cons_append] at h
        exact ih (List.cons.inj h).2
      · simp at h

end StateGraph

/-- Where a step is reported, the bound is lowered to its depth. -/
theorem withinBound_drop {bound j : Nat} {s : Step} {steps : List Step}
    (h : (withinBound bound steps)[j]? = some s) :
    ∃ earlier later, steps = earlier ++ s :: later ∧
      withinBound s.depth (s :: later) = (withinBound bound steps).drop j := by
  induction steps generalizing bound j with
  | nil => simp [withinBound] at h
  | cons t rest ih =>
    rw [withinBound] at h ⊢
    split at h
    · rename_i ht
      rw [if_pos ht]
      cases j with
      | zero =>
        obtain rfl : t = s := Option.some.inj h
        refine ⟨[], rest, rfl, ?_⟩
        rw [withinBound, if_pos ⟨ht.1, Nat.le_refl _⟩, List.drop_zero]
      | succ j =>
        obtain ⟨earlier, later, rfl, hdrop⟩ := ih h
        exact ⟨t :: earlier, later, rfl, hdrop⟩
    · rename_i ht
      rw [if_neg ht]
      obtain ⟨earlier, later, rfl, hdrop⟩ := ih h
      exact ⟨t :: earlier, later, rfl, hdrop⟩

theorem entries_drop (colour : String) {steps : List Step} (h : ∀ s ∈ steps, s.number.isSome)
    (j : Nat) : entries colour (steps.drop j) = (entries colour steps).drop j := by
  induction steps generalizing j with
  | nil => simp [entries]
  | cons s rest ih =>
    obtain ⟨n, hn⟩ := Option.isSome_iff_exists.mp (h s List.mem_cons_self)
    have hcons : entries colour (s :: rest) = { state := n, colour } :: entries colour rest := by
      simp [entries, hn]
    cases j with
    | zero => rfl
    | succ j =>
      rw [hcons, List.drop_succ_cons, List.drop_succ_cons]
      exact ih (fun t ht => h t (List.mem_cons_of_mem _ ht)) j

namespace Run
variable {r : Run} {records : List Record} {number : Nat} {target : Step}

/-- What is reported from a reported step on is what is reported for that step. -/
theorem reported_drop {j : Nat} {s : Step} (h : (r.reported target)[j]? = some s) :
    r.reported s = (r.reported target).drop j := by
  obtain ⟨earlier, later, hwalk, hdrop⟩ := withinBound_drop h
  rw [reported, StateGraph.walk_of_append hwalk]
  exact hdrop

/-- The steps of a simple trace are steps of the graph, and each has a number. -/
theorem reported_numbered (h : (ofRecords records).step number = .ok target) :
    ∀ s ∈ (ofRecords records).reported target,
      (ofRecords records).graph.step? s.index = some s ∧ s.number.isSome := by
  intro s hs
  have hsound : (ofRecords records).graph.Sound := StateGraph.ofRecords_sound records
  have hstep := hsound.mem_walk (step_eq_ok_iff.mp h).1 s ((withinBound_sublist _ _).subset hs)
  refine ⟨hstep, ?_⟩
  rw [StateGraph.number_eq hstep, if_pos (isShown_of_mem_withinBound s hs)]
  rfl

/-- The entry at a place of a simple trace leads to the step that is reported there. -/
theorem step_of_entry (h : (ofRecords records).step number = .ok target) {colour : String} {j : Nat}
    {e : TraceEntry} (he : (entries colour ((ofRecords records).reported target))[j]? = some e) :
    ∃ s, ((ofRecords records).reported target)[j]? = some s ∧
      (ofRecords records).step e.state = .ok s := by
  have hnumbered := reported_numbered h
  have hshows := forall₂_entries colour fun s hs => (hnumbered s hs).2
  have hresolves := resolves_of_shows hshows fun s hs => (hnumbered s hs).1
  obtain ⟨hj, hentry⟩ := List.getElem?_eq_some_iff.mp he
  have hj' : j < ((ofRecords records).reported target).length := hresolves.length_eq ▸ hj
  have hstep := (List.forall₂_iff_get.mp hresolves).2 j hj hj'
  rw [List.get_eq_getElem, List.get_eq_getElem, hentry] at hstep
  exact ⟨_, List.getElem?_eq_getElem hj', hstep⟩

/-- The first step that is reported for a shown step is the step itself. -/
theorem head?_reported (r : Run) (hshown : target.isShown = true) :
    (r.reported target).head? = some target := by
  obtain ⟨later, hwalk⟩ := List.head?_eq_some_iff.mp (r.graph.head?_walk target)
  rw [reported, hwalk, withinBound, if_pos ⟨hshown, Nat.le_refl _⟩]
  rfl

theorem mem_reported_self (r : Run) (hshown : target.isShown = true) :
    target ∈ r.reported target :=
  List.mem_of_mem_head? (r.head?_reported hshown)

/-- A simple trace begins with the state that it explains. -/
theorem head?_states_reported (h : (ofRecords records).step number = .ok target) (colour : String) :
    (Trace.states (entries colour ((ofRecords records).reported target))).head? = some number := by
  obtain ⟨hstep, hnumber⟩ := step_eq_ok_iff.mp h
  have hshown := StateGraph.isShown_of_number hstep hnumber
  obtain ⟨later, hreported⟩ :=
    List.head?_eq_some_iff.mp ((ofRecords records).head?_reported hshown)
  rw [states_entries, hreported, List.filterMap_cons_some hnumber]
  rfl

/-- Every simple trace is, from each of its places on, the simple trace of the state that
is reported at that place. -/
theorem simple_trace_continues (h : number < (ofRecords records).shown.length) (dark : Bool) :
    ∃ t, (ofRecords records).trace number { mode := .simple, dark } = .ok t ∧
      t.states.head? = some number ∧
      ∀ j e, t[j]? = some e →
        (ofRecords records).trace e.state { mode := .simple, dark } = .ok (t.drop j) := by
  obtain ⟨target, htarget⟩ := step_of_lt h
  refine ⟨entries (Colour.accent dark) ((ofRecords records).reported target), ?_,
    head?_states_reported htarget _, fun j e he => ?_⟩
  · rw [trace, htarget]
    rfl
  · obtain ⟨s, hs, hstep⟩ := step_of_entry htarget he
    rw [← entries_drop _ fun u hu => (reported_numbered htarget u hu).2, ← reported_drop hs,
      trace, hstep]
    rfl

/-- The walk from the last step comes to a state that is deeper than one before it and is
passed over, and then to a hidden branch, from which it jumps past the state at index 1. -/
def passedOverLog : List Record :=
  [Record.shown (.new 0 none), Record.shown (.new 0 (some 0)), Record.branch (.new 0 (some 0)),
    Record.shown (.new 0 (some 2)), Record.shown (.new 0 (some 3)), Record.shown (.new 0 (some 2)),
    .new 0 (some 5), Record.shown (.new 0 (some 5))]

example : ((ofRecords passedOverLog).trace 5 {}).map Trace.states = .ok [5, 4, 2, 0] := by
  cbv

theorem simple_trace_continues_past_deeper :
    5 < (ofRecords passedOverLog).shown.length ∧
      ∃ t, (ofRecords passedOverLog).trace 5 { mode := .simple, dark := true } = .ok t ∧
        t.states.head? = some 5 ∧
        ∀ j e, t[j]? = some e →
          (ofRecords passedOverLog).trace e.state { mode := .simple, dark := true } =
            .ok (t.drop j) :=
  ⟨by decide, simple_trace_continues (by decide) true⟩

end Run

end ProofStepper
