import ProofStepper.Proofs.Graph.Verifiables

/-!
# The verifiables partition the steps

The verifiables are found by their numbers, and each holds exactly the steps whose records
bear its number. So every step lies in one of them and in no second one, and looking up the
verifiable of a step finds the one that holds it, for any numbers and however the steps of
different verifiables lie mixed.
-/
namespace ProofStepper

namespace Verifiable
variable {vs : List Verifiable} {v : Verifiable} {n : Nat}

theorem Sorted.foldl_place (h : Sorted vs) (steps : List Step) :
    Sorted (steps.foldl (fun vs s => Verifiable.place s vs) vs) := by
  induction steps generalizing vs with
  | nil => exact h
  | cons s later ih => exact ih (h.place s)

/-- At most one verifiable has a number. -/
theorem Sorted.find?_eq_some_iff (h : Sorted vs) :
    vs.find? (fun w => w.index = n) = some v ↔ v ∈ vs ∧ v.index = n := by
  induction vs with
  | nil => simp
  | cons w rest ih =>
    obtain ⟨hfirst, hrest⟩ := List.pairwise_cons.mp h
    rw [find?_cons, List.mem_cons]
    split
    · rename_i hw
      constructor
      · intro he
        obtain rfl := Option.some.inj he
        exact ⟨.inl rfl, hw⟩
      · rintro ⟨rfl | hmem, hn⟩
        · rfl
        · have hlt := hfirst v hmem
          omega
    · rename_i hw
      rw [ih hrest]
      constructor
      · exact fun hv => ⟨.inr hv.1, hv.2⟩
      · rintro ⟨rfl | hmem, hn⟩
        · exact absurd hn hw
        · exact ⟨hmem, hn⟩

/-- Later steps leave the name and the kind as the first step set them. -/
theorem labels_foldl (steps : List Step) (v : Verifiable) :
    (steps.foldl append v).name = v.name ∧ (steps.foldl append v).kind = v.kind := by
  induction steps generalizing v with
  | nil => exact ⟨rfl, rfl⟩
  | cons s later ih => exact ih (v.append s)

/-- A verifiable is made of one step at least, and it is called after the first one. -/
theorem exists_first_of_ofSteps? {steps : List Step} (h : ofSteps? steps = some v) :
    ∃ s later, steps = s :: later ∧ v.name = s.record.methodName ∧
      v.kind = s.record.methodType := by
  cases steps with
  | nil => cases h
  | cons s later =>
    cases h
    obtain ⟨hname, hkind⟩ := labels_foldl later (ofStep s)
    exact ⟨s, later, rfl, hname, hkind⟩

end Verifiable

namespace StateGraph
variable {g : StateGraph} {v w : Verifiable} {i : Nat}

theorem sorted_verifiables (g : StateGraph) : Verifiable.Sorted g.verifiables :=
  Verifiable.Sorted.foldl_place List.Pairwise.nil g.steps

/-- The verifiables are those that are made of all steps with their number. -/
theorem mem_verifiables_iff : v ∈ g.verifiables ↔
    Verifiable.ofSteps? (g.steps.filter fun s => s.verifiable = v.index) = some v := by
  rw [← g.find?_verifiables, g.sorted_verifiables.find?_eq_some_iff, and_iff_left rfl]

theorem verifiableOf?_eq_some_iff {s : Step} (hs : g.step? i = some s) :
    g.verifiableOf? i = some v ↔ v ∈ g.verifiables ∧ v.index = s.verifiable := by
  rw [verifiableOf?, hs, Option.bind_some, g.sorted_verifiables.find?_eq_some_iff]

/-- A verifiable holds the steps with its number. -/
theorem Sound.mem_steps_iff (h : g.Sound) (hv : v ∈ g.verifiables) :
    i ∈ v.steps ↔ ∃ s, g.step? i = some s ∧ s.verifiable = v.index := by
  simp only [Verifiable.steps_of_ofSteps? (mem_verifiables_iff.mp hv), List.mem_map,
    List.mem_filter, decide_eq_true_eq]
  constructor
  · rintro ⟨s, ⟨hs, hn⟩, rfl⟩
    exact ⟨s, h.mem_steps.mp hs, hn⟩
  · rintro ⟨s, hs, hn⟩
    exact ⟨s, ⟨List.mem_of_getElem? hs, hn⟩, h.index hs⟩

theorem Sound.verifiable_steps_sorted (h : g.Sound) (hv : v ∈ g.verifiables) :
    v.steps.Pairwise (· < ·) := by
  rw [Verifiable.steps_of_ofSteps? (mem_verifiables_iff.mp hv)]
  exact List.pairwise_map.mpr (h.steps_sorted.filter _)

/-- Verifiables with different numbers have no step in common. -/
theorem Sound.steps_disjoint (h : g.Sound) (hv : v ∈ g.verifiables) (hw : w ∈ g.verifiables)
    (hne : v.index ≠ w.index) : v.steps.Disjoint w.steps := by
  intro i hiv hiw
  obtain ⟨s, hs, hsv⟩ := (h.mem_steps_iff hv).mp hiv
  obtain ⟨t, ht, htw⟩ := (h.mem_steps_iff hw).mp hiw
  obtain rfl := Option.some.inj (hs.symm.trans ht)
  exact hne (hsv.symm.trans htw)

/-- The verifiable of a step is the one that holds it. -/
theorem Sound.verifiableOf?_iff (h : g.Sound) :
    g.verifiableOf? i = some v ↔ v ∈ g.verifiables ∧ i ∈ v.steps := by
  cases hs : g.step? i with
  | none =>
    have hnone : ¬ (v ∈ g.verifiables ∧ i ∈ v.steps) := by
      rintro ⟨hv, hi⟩
      obtain ⟨s, hsome, -⟩ := (h.mem_steps_iff hv).mp hi
      rw [hs] at hsome
      cases hsome
    simp only [verifiableOf?, hs, Option.bind_none, reduceCtorEq, hnone]
  | some s =>
    rw [verifiableOf?_eq_some_iff hs]
    refine and_congr_right fun hv => ?_
    rw [h.mem_steps_iff hv, hs]
    constructor
    · exact fun hn => ⟨s, rfl, hn.symm⟩
    · rintro ⟨t, ht, hn⟩
      obtain rfl := Option.some.inj ht
      exact hn.symm

/-- The graph retains no parent for a step of it. -/
def isTop (g : StateGraph) (index : Nat) : Bool := (g.step? index).any fun s => s.parent.isNone

theorem Sound.isTop_iff (h : g.Sound) : g.isTop i = true ↔ g.depth? i = some 0 := by
  cases hs : g.step? i with
  | none => simp [isTop, depth?, hs]
  | some s =>
    simp only [isTop, depth?, hs, Option.any_some, Option.isNone_iff_eq_none, Option.map_some,
      Option.some.injEq]
    constructor
    · exact h.root hs
    · intro hd
      by_contra hp
      obtain ⟨p, hp⟩ := Option.ne_none_iff_exists'.mp hp
      obtain ⟨t, -, ht⟩ := h.below hs hp
      omega

theorem Sound.topLevel_eq (h : g.Sound) (hv : v ∈ g.verifiables) :
    v.topLevel = v.steps.filter g.isTop := by
  have hsteps := mem_verifiables_iff.mp hv
  rw [Verifiable.topLevel_of_ofSteps? hsteps, Verifiable.steps_of_ofSteps? hsteps, List.filter_map]
  congr 1
  refine List.filter_congr fun s hs => ?_
  have hown := h.mem_steps.mp (List.mem_filter.mp hs).1
  simp only [Function.comp_apply, isTop, hown, Option.any_some]
  cases s.parent <;> rfl

/-- The verifiables of the graph of some records: their numbers, their steps, their steps at
the top level, their names, and how they are found from a step. -/
structure PartitionsSteps (records : List Record) (g : StateGraph) : Prop where
  numbers_sorted : (g.verifiables.map (·.index)).Pairwise (· < ·)
  mem_numbers : ∀ n, n ∈ g.verifiables.map (·.index) ↔ ∃ r ∈ records, r.verifiable = n
  steps_sorted : ∀ v ∈ g.verifiables, v.steps.Pairwise (· < ·)
  mem_steps : ∀ v ∈ g.verifiables, ∀ i,
    i ∈ v.steps ↔ ∃ r, records[i]? = some r ∧ r.verifiable = v.index
  disjoint : g.verifiables.Pairwise fun v w => v.steps.Disjoint w.steps
  complete : ∀ i, (∃ v ∈ g.verifiables, i ∈ v.steps) ↔ i < records.length
  topLevel : ∀ v ∈ g.verifiables, v.topLevel = v.steps.filter g.isTop
  roots : ∀ i, (∃ v ∈ g.verifiables, i ∈ v.topLevel) ↔ g.depth? i = some 0
  earliest : ∀ v ∈ g.verifiables, ∃ i later r, v.steps = i :: later ∧ records[i]? = some r ∧
    v.name = r.methodName ∧ v.kind = r.methodType
  lookup : ∀ i v, g.verifiableOf? i = some v ↔ v ∈ g.verifiables ∧ i ∈ v.steps
  present : ∀ i, (g.verifiableOf? i).isSome ↔ i < records.length

section
variable {records : List Record}

theorem exists_step?_iff (P : Record → Prop) :
    (∃ s, (ofRecords records).step? i = some s ∧ P s.record) ↔
      ∃ r, records[i]? = some r ∧ P r := by
  simp only [step?_ofRecords, Option.map_eq_some_iff]
  constructor
  · rintro ⟨_, ⟨r, hr, rfl⟩, hP⟩
    exact ⟨r, hr, hP⟩
  · rintro ⟨r, hr, hP⟩
    exact ⟨_, ⟨r, hr, rfl⟩, hP⟩

theorem isSome_verifiableOf?_iff :
    ((ofRecords records).verifiableOf? i).isSome ↔ i < records.length := by
  rw [← step?_isSome_iff, Option.isSome_iff_exists]
  constructor
  · rintro ⟨v, hv⟩
    obtain ⟨s, hs, -⟩ := Option.bind_eq_some_iff.mp hv
    exact ⟨s, hs⟩
  · rintro ⟨s, hs⟩
    obtain ⟨v, hv, -⟩ := exists_verifiableOf? hs
    exact ⟨v, hv⟩

end

/-- The verifiables of every graph made of records partition its steps, and the verifiable of
a step is the one in whose steps it is. -/
theorem ofRecords_partitionsSteps (records : List Record) :
    (ofRecords records).PartitionsSteps records := by
  have h := ofRecords_sound records
  have hsorted := (ofRecords records).sorted_verifiables
  have hmem : ∀ v ∈ (ofRecords records).verifiables, ∀ i,
      i ∈ v.steps ↔ ∃ r, records[i]? = some r ∧ r.verifiable = v.index := by
    intro v hv i
    rw [h.mem_steps_iff hv]
    exact exists_step?_iff fun r => r.verifiable = v.index
  have hcomplete : ∀ i, (∃ v ∈ (ofRecords records).verifiables, i ∈ v.steps) ↔
      i < records.length := by
    intro i
    simp only [← isSome_verifiableOf?_iff, Option.isSome_iff_exists, h.verifiableOf?_iff]
  have hearliest : ∀ v ∈ (ofRecords records).verifiables, ∃ i later r, v.steps = i :: later ∧
      records[i]? = some r ∧ v.name = r.methodName ∧ v.kind = r.methodType := by
    intro v hv
    have hsteps := mem_verifiables_iff.mp hv
    obtain ⟨s, later, hcons, hname, hkind⟩ := Verifiable.exists_first_of_ofSteps? hsteps
    have hs : s ∈ (ofRecords records).steps :=
      (List.mem_filter.mp (hcons ▸ List.mem_cons_self)).1
    refine ⟨s.index, later.map (·.index), s.record, ?_, (eq_stepOf (h.mem_steps.mp hs)).1, hname,
      hkind⟩
    rw [Verifiable.steps_of_ofSteps? hsteps, hcons, List.map_cons]
  refine ⟨List.pairwise_map.mpr hsorted, fun n => ?_, fun v => h.verifiable_steps_sorted, hmem, ?_,
    hcomplete, fun v => h.topLevel_eq, fun i => ?_, hearliest, fun i v => h.verifiableOf?_iff,
    fun i => isSome_verifiableOf?_iff⟩
  · simp only [List.mem_map]
    constructor
    · rintro ⟨v, hv, rfl⟩
      obtain ⟨i, later, r, hcons, -⟩ := hearliest v hv
      obtain ⟨r, hr, hn⟩ := (hmem v hv i).mp (hcons ▸ List.mem_cons_self)
      exact ⟨r, List.mem_of_getElem? hr, hn⟩
    · rintro ⟨r, hr, rfl⟩
      obtain ⟨i, hi⟩ := List.getElem?_of_mem hr
      obtain ⟨v, hv, hiv⟩ := (hcomplete i).mpr (List.getElem?_eq_some_iff.mp hi).1
      obtain ⟨r', hr', hn⟩ := (hmem v hv i).mp hiv
      obtain rfl := Option.some.inj (hi.symm.trans hr')
      exact ⟨v, hv, hn.symm⟩
  · refine hsorted.imp_of_mem fun hv hw hlt => ?_
    exact h.steps_disjoint hv hw (Nat.ne_of_lt hlt)
  · constructor
    · rintro ⟨v, hv, hi⟩
      rw [h.topLevel_eq hv] at hi
      exact h.isTop_iff.mp (List.mem_filter.mp hi).2
    · intro hdepth
      obtain ⟨s, hs, -⟩ := Option.map_eq_some_iff.mp hdepth
      obtain ⟨v, hv, hi⟩ := (hcomplete i).mpr ((step?_isSome_iff records i).mp ⟨s, hs⟩)
      refine ⟨v, hv, ?_⟩
      rw [h.topLevel_eq hv]
      exact List.mem_filter.mpr ⟨hi, h.isTop_iff.mpr hdepth⟩

end StateGraph

end ProofStepper
