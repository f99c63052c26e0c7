import ProofStepper.Proofs.Trace.Advanced

/-!
# States that a trace reports twice

An advanced trace has no state twice in one colour: different steps have different numbers,
and neither the surroundings of a step nor the path from it has a step twice. The expansion
lies deeper than the step and the path does not, so the states that the two colours have in
common are roots of the verifiable.
-/
namespace ProofStepper

namespace Run
variable {records : List Record} {number : Nat} {target : Step}

/-- Different steps have different numbers. -/
theorem numbers_nodup {steps : List Step} (hsteps : (steps.map (·.index)).Nodup)
    (hmem : ∀ s ∈ steps, (ofRecords records).graph.step? s.index = some s) :
    (steps.filterMap (·.number)).Nodup := by
  refine List.pairwise_filterMap.mpr ((List.pairwise_map.mp hsteps).imp_of_mem ?_)
  intro s t hs ht hne m hm n hn
  rcases Nat.lt_or_gt_of_ne hne with hlt | hlt
  · exact (number_lt hlt (hmem s hs) hm (hmem t ht) hn).ne
  · exact (number_lt hlt (hmem t ht) hn (hmem s hs) hm).ne'

/-- The step that bears a number is the only one. -/
theorem eq_of_number {s t : Step} {n : Nat}
    (hs : (ofRecords records).graph.step? s.index = some s) (hsn : s.number = some n)
    (ht : (ofRecords records).graph.step? t.index = some t) (htn : t.number = some n) : s = t := by
  have hsame := (step_eq_ok_iff.mpr ⟨hs, hsn⟩).symm.trans (step_eq_ok_iff.mpr ⟨ht, htn⟩)
  exact Except.ok.inj hsame

theorem shownIn_surroundings {r : Run} (h : r.graph.Sound)
    (ht : r.graph.step? target.index = some target) :
    r.ShownIn target.verifiable (r.surroundings target) := by
  obtain ⟨visited, hunfolds, hexpansion⟩ := h.exists_unfolds target.verifiable ht
  rw [surroundings_eq h ht, hexpansion]
  intro s hs
  rcases List.mem_append.mp hs with hs | hs
  · exact shownIn_visited hunfolds s hs
  · exact shownIn_topLevelBeside r target s hs

/-- The expansion of a step lies deeper than the step, and the top level not at all. -/
theorem surroundings_nodup {r : Run} (h : r.graph.Sound)
    (ht : r.graph.step? target.index = some target) :
    ((r.surroundings target).map (·.index)).Nodup := by
  have hshown := shownIn_surroundings h ht
  rw [surroundings_eq h ht] at hshown ⊢
  rw [List.map_append]
  refine List.nodup_append.mpr ⟨h.expansion_nodup _ _, ?_, ?_⟩
  · exact List.pairwise_map.mpr ((h.steps_sorted.filter _).imp Nat.ne_of_lt)
  · intro i hi j hj he
    obtain ⟨s, hs, rfl⟩ := List.mem_map.mp hi
    obtain ⟨t, htop, rfl⟩ := List.mem_map.mp hj
    have hstep := h.mem_steps.mp (hshown s (List.mem_append_left _ hs)).1
    have htop' := h.mem_steps.mp (hshown t (List.mem_append_right _ htop)).1
    rw [he, htop'] at hstep
    obtain rfl := Option.some.inj hstep
    have hdeep := h.depth_of_mem_expansion ht hs
    obtain ⟨-, hroot, -⟩ := of_decide_eq_true (List.mem_filter.mp htop).2
    rw [h.root htop' hroot] at hdeep
    omega

theorem surroundings_numbers_nodup
    (ht : (ofRecords records).graph.step? target.index = some target) :
    (((ofRecords records).surroundings target).filterMap (·.number)).Nodup := by
  have hsound : (ofRecords records).graph.Sound := StateGraph.ofRecords_sound records
  exact numbers_nodup (surroundings_nodup hsound ht) fun s hs =>
    (shownIn_surroundings hsound ht).step? hs

theorem reported_numbers_nodup (ht : (ofRecords records).graph.step? target.index = some target) :
    (((ofRecords records).reported target).filterMap (·.number)).Nodup := by
  have hsound : (ofRecords records).graph.Sound := StateGraph.ofRecords_sound records
  have hsub : ((ofRecords records).reported target).Sublist
      ((ofRecords records).graph.walk target).steps := withinBound_sublist _ _
  exact (numbers_sorted ((hsound.walk_isWalk ht).sorted.sublist hsub) fun s hs =>
    hsound.mem_walk ht s (hsub.subset hs)).imp Nat.ne_of_gt

/-- The path from a step does not come to its expansion. -/
theorem expansion_not_reported (ht : (ofRecords records).graph.step? target.index = some target)
    {s : Step} (hs : s ∈ (ofRecords records).graph.expansion target.verifiable target.index)
    {n : Nat} (hn : s.number = some n) :
    n ∉ ((ofRecords records).reported target).filterMap (·.number) := by
  have hsound : (ofRecords records).graph.Sound := StateGraph.ofRecords_sound records
  intro hmem
  obtain ⟨u, hu, hun⟩ := List.mem_filterMap.mp hmem
  have hustep := hsound.mem_walk ht u ((withinBound_sublist _ _).subset hu)
  have hsstep : (ofRecords records).graph.step? s.index = some s := by
    refine (shownIn_surroundings hsound ht).step? ?_
    rw [surroundings_eq hsound ht]
    exact List.mem_append_left _ hs
  obtain rfl := eq_of_number hsstep hn hustep hun
  have hdeep := hsound.depth_of_mem_expansion ht hs
  have hbound := depth_le_of_mem_withinBound s hu
  omega

/-- A state that lies around a step and on the path from it is a root of the verifiable. -/
theorem root_of_reported_twice (ht : (ofRecords records).graph.step? target.index = some target)
    {n : Nat} (haround : n ∈ ((ofRecords records).surroundings target).filterMap (·.number))
    (hpath : n ∈ ((ofRecords records).reported target).filterMap (·.number)) :
    ∃ s, (ofRecords records).step n = .ok s ∧ s.parent = none ∧ s.depth = 0 ∧
      s.verifiable = target.verifiable := by
  have hsound : (ofRecords records).graph.Sound := StateGraph.ofRecords_sound records
  obtain ⟨s, hs, hn⟩ := List.mem_filterMap.mp haround
  have hstep := (shownIn_surroundings hsound ht).step? hs
  rw [surroundings_eq hsound ht] at hs
  rcases List.mem_append.mp hs with hs | hs
  · exact absurd hpath (expansion_not_reported ht hs hn)
  · obtain ⟨-, hroot, hv⟩ := of_decide_eq_true (List.mem_filter.mp hs).2
    exact ⟨s, step_eq_ok_iff.mpr ⟨hstep, hn⟩, hroot, hsound.root hstep hroot, hv⟩

section
variable (r : Run) (target : Step) (dark : Bool)

theorem states_advanced : (r.traceOf target { mode := .advanced, dark }).states =
    (r.surroundings target).filterMap (·.number) ++ (r.reported target).filterMap (·.number) := by
  rw [← states_entries (Colour.muted dark), ← states_entries (Colour.accent dark)]
  exact List.map_append

theorem muted_states_advanced :
    ((r.traceOf target { mode := .advanced, dark }).inColour (Colour.muted dark)).states =
      (r.surroundings target).filterMap (·.number) := by
  rw [traceOf, Trace.inColour_append, inColour_entries,
    inColour_entries_of_ne (Colour.muted_ne_accent dark).symm, List.append_nil, states_entries]

theorem accent_states_advanced :
    ((r.traceOf target { mode := .advanced, dark }).inColour (Colour.accent dark)).states =
      (r.reported target).filterMap (·.number) := by
  rw [traceOf, Trace.inColour_append, inColour_entries_of_ne (Colour.muted_ne_accent dark),
    inColour_entries, List.nil_append, states_entries]

end

/-- How often the advanced trace of a client state reports a state. -/
structure RepeatsRoots (r : Run) (number : Nat) (dark : Bool) (target : Step) (t : Trace) :
    Prop where
  resolved : r.step number = .ok target
  advanced : r.trace number { mode := .advanced, dark } = .ok t
  colours : ∀ e ∈ t, e.colour = Colour.muted dark ∨ e.colour = Colour.accent dark
  muted_once : (t.inColour (Colour.muted dark)).states.Nodup
  accent_once : (t.inColour (Colour.accent dark)).states.Nodup
  twice_at_most : ∀ n, t.states.count n ≤ 2
  expansion_muted : ∀ s ∈ r.graph.expansion target.verifiable target.index, ∀ n,
    s.number = some n → n ∈ (t.inColour (Colour.muted dark)).states ∧
      n ∉ (t.inColour (Colour.accent dark)).states
  expansion_deeper : ∀ s ∈ r.graph.expansion target.verifiable target.index,
    target.depth < s.depth
  repeated : ∀ n, 1 < t.states.count n → ∃ s, r.step n = .ok s ∧ s.parent = none ∧ s.depth = 0 ∧
    s.verifiable = target.verifiable

/-- Every client state has an advanced trace, which reports no state twice in one colour, and
only roots of the verifiable in both. -/
theorem advanced_trace_repeats_roots (h : number < (ofRecords records).shown.length)
    (dark : Bool) : ∃ target t, (ofRecords records).RepeatsRoots number dark target t := by
  obtain ⟨target, htarget⟩ := step_of_lt h
  obtain ⟨hstep, -⟩ := step_eq_ok_iff.mp htarget
  have hsound : (ofRecords records).graph.Sound := StateGraph.ofRecords_sound records
  have haround := surroundings_numbers_nodup hstep
  have hpath := reported_numbers_nodup hstep
  refine ⟨target, (ofRecords records).traceOf target { mode := .advanced, dark }, ?_⟩
  exact {
    resolved := htarget
    advanced := by
      rw [trace, htarget]
      rfl
    colours := fun _ he =>
      (List.mem_append.mp he).imp colour_of_mem_entries colour_of_mem_entries
    muted_once := by rwa [muted_states_advanced]
    accent_once := by rwa [accent_states_advanced]
    twice_at_most := by
      intro n
      have hleft := List.nodup_iff_count_le_one.mp haround n
      have hright := List.nodup_iff_count_le_one.mp hpath n
      rw [states_advanced, List.count_append]
      omega
    expansion_muted := by
      intro s hs n hn
      rw [muted_states_advanced, accent_states_advanced, surroundings_eq hsound hstep]
      exact ⟨List.mem_filterMap.mpr ⟨s, List.mem_append_left _ hs, hn⟩,
        expansion_not_reported hstep hs hn⟩
    expansion_deeper := fun _ hs => hsound.depth_of_mem_expansion hstep hs
    repeated := by
      intro n hn
      have hleft := List.nodup_iff_count_le_one.mp haround n
      have hright := List.nodup_iff_count_le_one.mp hpath n
      rw [states_advanced, List.count_append] at hn
      exact root_of_reported_twice hstep (List.count_pos_iff.mp (by omega))
        (List.count_pos_iff.mp (by omega)) }

/-- The parents of the first three records form a cycle, which is cut at the first of them. -/
def cyclicLog : List Record :=
  [Record.shown (.new 0 (some 2)), Record.shown (.new 0 (some 0)), Record.shown (.new 0 (some 1)),
    Record.shown (.new 0 (some 2))]

example : ((ofRecords cyclicLog).trace 2 { mode := .advanced }).map Trace.states =
    .ok [3, 0, 2, 1, 0] := by
  cbv

theorem advanced_trace_repeats_root_of_cycle :
    2 < (ofRecords cyclicLog).shown.length ∧
      ∃ target t, (ofRecords cyclicLog).RepeatsRoots 2 true target t :=
  ⟨by decide, advanced_trace_repeats_roots (by decide) true⟩

end Run

end ProofStepper
