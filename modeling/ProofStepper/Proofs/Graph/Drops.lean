import ProofStepper.Proofs.Graph.ExactRepair
import ProofStepper.Run

/-!
# Which parents a graph drops

A record loses its parent in two cases only: the parent lies outside of the log, or the
step is the entry of a cycle. Each loss is reported once, and a graph whose records name
the retained parents has nothing to drop.
-/
namespace ProofStepper

/-- The step that lost its parent. -/
def Graph.Defect.step : Graph.Defect → Nat
  | .outside step _ => step
  | .cycle entry => entry

namespace StateGraph
open ProofStepper.Graph

/-- The parents that records name inside of their log. -/
def namedParents (records : List Record) : List (Option Nat) :=
  namedInside (records.map (·.parent))

section
variable {records : List Record} {i : Nat} {s : Step}

theorem parentAt_namedParents (hs : (ofRecords records).step? i = some s) :
    parentAt (namedParents records) i = inside records.length s.record.parent := by
  rw [namedParents, namedInside, parentAt_inside, List.length_map, parentAt, List.getElem?_map,
    (eq_stepOf hs).1]
  rfl

theorem parent_of_entry (hs : (ofRecords records).step? i = some s) {start : Nat}
    (h : Entry (namedParents records) start i) : s.parent = none := by
  rw [parent_eq hs]
  exact Forest.parent_of_entry h

theorem parent_of_not_entry (hs : (ofRecords records).step? i = some s)
    (h : ∀ start, ¬ Entry (namedParents records) start i) :
    s.parent = inside records.length s.record.parent := by
  rw [parent_eq hs, ← parentAt_namedParents hs]
  exact Forest.parent_of_not_entry h

theorem parent_eq_none_iff (hs : (ofRecords records).step? i = some s) {p : Nat}
    (hp : s.record.parent = some p) :
    s.parent = none ↔ records.length ≤ p ∨ ∃ start, Entry (namedParents records) start i := by
  by_cases h : ∃ start, Entry (namedParents records) start i
  · obtain ⟨start, hstart⟩ := h
    exact ⟨fun _ => .inr ⟨start, hstart⟩, fun _ => parent_of_entry hs hstart⟩
  · have hkept := parent_of_not_entry hs (not_exists.mp h)
    rw [hkept, hp, or_iff_left h, inside, Option.filter_eq_none_iff]
    simp

/-- A step off the cycles keeps a parent inside of the log. -/
theorem parent_of_not_onCycle (hs : (ofRecords records).step? i = some s)
    (h : ¬ OnCycle (namedParents records) i) :
    s.parent = inside records.length s.record.parent :=
  parent_of_not_entry hs fun _ he => h he.meets.onCycle

theorem exists_step_of_onCycle (h : OnCycle (namedParents records) i) :
    ∃ s, (ofRecords records).step? i = some s := by
  obtain ⟨p, hp, -⟩ := h.exists_parent
  have hlt := lt_length_of_parentAt hp
  exact (step?_isSome_iff records i).mpr (by simpa [namedParents, namedInside] using hlt)

/-- The only step of a cycle that loses its parent is its entry. -/
theorem entry_of_lost (hs : (ofRecords records).step? i = some s)
    (h : OnCycle (namedParents records) i) (hlost : s.parent = none) :
    ∃ start, Entry (namedParents records) start i := by
  obtain ⟨p, hp, -⟩ := h.exists_parent
  rw [parentAt_namedParents hs, inside_eq_some] at hp
  have := (parent_eq_none_iff hs hp.1).mp hlost
  exact this.resolve_left (by omega)

/-- Just one step of a cycle loses its parent. -/
theorem exists_unique_lost (hi : OnCycle (namedParents records) i) :
    ∃! e, Leads (namedParents records) i e ∧
      ∃ s, (ofRecords records).step? e = some s ∧ s.parent = none := by
  obtain ⟨start, e, hentry, hie⟩ := Entry.exists hi
  obtain ⟨s, hs⟩ := exists_step_of_onCycle hentry.meets.onCycle
  refine ⟨e, ⟨hie, s, hs, parent_of_entry hs hentry⟩, ?_⟩
  intro e' ⟨hie', s', hs', hlost⟩
  obtain ⟨he', hback⟩ := hi.of_leads hie'
  obtain ⟨start', hentry'⟩ := entry_of_lost hs' he' hlost
  exact (hentry'.unique hentry (hback.trans hie)).2

end

/-- The parents outside of a log, in the order of the steps that name them. -/
def outsideDrops (records : List Record) : List Defect :=
  records.zipIdx.filterMap fun e => outsideDrop records.length e.1.parent e.2

theorem mem_outsideDrops {records : List Record} {d : Defect} :
    d ∈ outsideDrops records ↔ ∃ i r p, records[i]? = some r ∧ r.parent = some p ∧
      records.length ≤ p ∧ d = .outside i p := by
  simp only [outsideDrops, List.mem_filterMap, outsideDrop, Option.map_eq_some_iff,
    Option.filter_eq_some_iff, decide_eq_true_eq, Prod.exists, List.mem_zipIdx_iff_getElem?]
  constructor
  · rintro ⟨r, i, hr, p, ⟨hp, hle⟩, rfl⟩
    exact ⟨i, r, p, hr, hp, hle, rfl⟩
  · rintro ⟨i, r, p, hr, hp, hle, rfl⟩
    exact ⟨r, i, hr, p, ⟨hp, hle⟩, rfl⟩

theorem defects_eq (records : List Record) :
    ∃ pairs : List (Nat × Nat), pairs.Pairwise (fun a b => a.1 < b.1) ∧
      (∀ start e, (start, e) ∈ pairs ↔ Entry (namedParents records) start e) ∧
      defects records = outsideDrops records ++ pairs.map fun a => .cycle a.2 := by
  obtain ⟨pairs, hsorted, hpairs, heq⟩ := Forest.defects_eq (records.map (·.parent))
  refine ⟨pairs, hsorted, hpairs, ?_⟩
  rw [defects, heq, List.length_map, List.zipIdx_map, List.filterMap_map]
  rfl

theorem lt_of_inside {records : List Record} {i p : Nat}
    (h : parentAt (namedParents records) i = some p) : p < records.length := by
  rw [namedParents, namedInside, parentAt_inside, inside_eq_some] at h
  simpa using h.2

/-- No step is reported twice. -/
theorem defect_steps_nodup (records : List Record) : ((defects records).map Defect.step).Nodup := by
  obtain ⟨pairs, hsorted, hpairs, heq⟩ := defects_eq records
  rw [heq, List.map_append, List.map_map]
  have hindices : records.zipIdx.Pairwise fun a b => a.2 < b.2 := by
    rw [List.pairwise_iff_getElem]
    intro i j hi hj hij
    simpa using hij
  refine List.nodup_append.mpr ⟨?_, ?_, ?_⟩
  · apply List.pairwise_map.mpr
    apply List.pairwise_filterMap.mpr
    apply hindices.imp
    intro a b hlt d hd d' hd'
    obtain ⟨p, -, rfl⟩ := Option.map_eq_some_iff.mp hd
    obtain ⟨q, -, rfl⟩ := Option.map_eq_some_iff.mp hd'
    exact Nat.ne_of_lt hlt
  · apply List.pairwise_map.mpr
    apply hsorted.imp_of_mem
    rintro ⟨a, e⟩ ⟨b, e'⟩ ha hb hlt (rfl : e = e')
    have := (((hpairs a e).mp ha).unique ((hpairs b e).mp hb) .refl).1
    simp only at hlt
    omega
  · rintro i hi j hj rfl
    obtain ⟨d, hd, rfl⟩ := List.mem_map.mp hi
    obtain ⟨i, r, p, hr, hp, hle, rfl⟩ := mem_outsideDrops.mp hd
    obtain ⟨⟨start, e⟩, he, hstep⟩ := List.mem_map.mp hj
    obtain rfl : e = i := hstep
    obtain ⟨q, hq, -⟩ := ((hpairs start e).mp he).meets.onCycle.exists_parent
    have hlt := lt_of_inside hq
    obtain ⟨s, hs⟩ := exists_step_of_onCycle ((hpairs start e).mp he).meets.onCycle
    rw [parentAt_namedParents hs, inside_eq_some] at hq
    rw [(eq_stepOf hs).1] at hr
    cases hr
    rw [hp] at hq
    cases hq.1
    omega

/-- Those steps are reported that lost their parent. -/
theorem mem_defect_steps {records : List Record} {i : Nat} :
    i ∈ (defects records).map Defect.step ↔
      ∃ s, (ofRecords records).step? i = some s ∧ s.record.parent ≠ none ∧ s.parent = none := by
  obtain ⟨pairs, -, hpairs, heq⟩ := defects_eq records
  rw [heq, List.map_append, List.map_map, List.mem_append, List.mem_map, List.mem_map]
  constructor
  · rintro (⟨d, hd, rfl⟩ | ⟨⟨start, e⟩, he, rfl⟩)
    · obtain ⟨i, r, p, hr, hp, hle, rfl⟩ := mem_outsideDrops.mp hd
      obtain ⟨s, hs⟩ := (step?_isSome_iff records i).mpr (List.getElem?_eq_some_iff.mp hr).choose
      rw [(eq_stepOf hs).1] at hr
      cases hr
      exact ⟨s, hs, by simp [hp], (parent_eq_none_iff hs hp).mpr (.inl hle)⟩
    · have hentry := (hpairs start e).mp he
      obtain ⟨s, hs⟩ := exists_step_of_onCycle hentry.meets.onCycle
      obtain ⟨p, hp, -⟩ := hentry.meets.onCycle.exists_parent
      rw [parentAt_namedParents hs, inside_eq_some] at hp
      exact ⟨s, hs, by simp [hp.1], parent_of_entry hs hentry⟩
  · rintro ⟨s, hs, hnamed, hlost⟩
    obtain ⟨p, hp⟩ := Option.ne_none_iff_exists'.mp hnamed
    rcases (parent_eq_none_iff hs hp).mp hlost with hle | ⟨start, hentry⟩
    · exact .inl ⟨.outside i p,
        mem_outsideDrops.mpr ⟨i, s.record, p, (eq_stepOf hs).1, hp, hle, rfl⟩, rfl⟩
    · exact .inr ⟨(start, i), (hpairs start i).mpr hentry, rfl⟩

/-- All parents lie inside of the log and on no cycle. -/
structure Consistent (records : List Record) : Prop where
  inside : ∀ r ∈ records, ∀ p, r.parent = some p → p < records.length
  acyclic : ∀ i, ¬ OnCycle (namedParents records) i

theorem Consistent.defects_eq_nil {records : List Record} (h : Consistent records) :
    defects records = [] := by
  obtain ⟨pairs, -, hpairs, heq⟩ := defects_eq records
  have houtside : outsideDrops records = [] := by
    rw [List.eq_nil_iff_forall_not_mem]
    intro d hd
    obtain ⟨i, r, p, hr, hp, hle, -⟩ := mem_outsideDrops.mp hd
    have := h.inside r (List.mem_of_getElem? hr) p hp
    omega
  have hcycles : pairs = [] := by
    rw [List.eq_nil_iff_forall_not_mem]
    rintro ⟨start, e⟩ he
    exact h.acyclic e ((hpairs start e).mp he).meets.onCycle
  rw [heq, houtside, hcycles]
  rfl

theorem Consistent.parent_eq_record {records : List Record} (h : Consistent records) {i : Nat}
    {s : Step} (hs : (ofRecords records).step? i = some s) : s.parent = s.record.parent := by
  rw [parent_of_not_onCycle hs (h.acyclic i)]
  cases hp : s.record.parent with
  | none => rfl
  | some p =>
    have hmem := List.mem_of_getElem? (eq_stepOf hs).1
    exact inside_eq_some.mpr ⟨rfl, h.inside s.record hmem p hp⟩

/-- The records with their parents replaced by the retained ones. -/
def repaired (records : List Record) : List Record :=
  (ofRecords records).steps.map fun s => { s.record with parent := s.parent }

theorem getElem?_repaired (records : List Record) (i : Nat) :
    (repaired records)[i]? = ((ofRecords records).step? i).map fun s =>
      { s.record with parent := s.parent } := by
  rw [repaired, List.getElem?_map]
  rfl

theorem length_assemble (forest : Forest) (index shown : Nat) (records : List Record) :
    (assemble forest index shown records).length = records.length := by
  induction records generalizing index shown with
  | nil => rfl
  | cons record rest ih => simp [assemble, ih]

theorem length_repaired (records : List Record) : (repaired records).length = records.length := by
  rw [repaired, List.length_map]
  exact length_assemble _ _ _ _

/-- On the way up through retained parents the depth goes down, so it never comes back. -/
theorem repaired_consistent (records : List Record) : Consistent (repaired records) := by
  have hsound := ofRecords_sound records
  refine ⟨?_, ?_⟩
  · intro r hr p hp
    obtain ⟨s, hs, rfl⟩ := List.mem_map.mp hr
    rw [length_repaired]
    exact (parent_recorded (hsound.mem_steps.mp hs) hp).2
  · have hup : ∀ i p, parentAt (namedParents (repaired records)) i = some p →
        (ofRecords records).Up i p := by
      intro i p hp
      rw [namedParents, namedInside, parentAt_inside, inside_eq_some, parentAt, List.getElem?_map,
        getElem?_repaired] at hp
      cases hs : (ofRecords records).step? i with
      | none => simp [hs] at hp
      | some s => exact ⟨s, hs, by simpa [hs] using hp.1⟩
    have hdown : ∀ i j, Relation.TransGen (Names (namedParents (repaired records))) i j →
        ∃ s t, (ofRecords records).step? i = some s ∧ (ofRecords records).step? j = some t ∧
          t.depth < s.depth := by
      intro i j h
      induction h with
      | single hp =>
        obtain ⟨s, hs, hp⟩ := hup _ _ hp
        obtain ⟨t, ht, hd⟩ := hsound.below hs hp
        exact ⟨s, t, hs, ht, by omega⟩
      | tail _ hp ih =>
        obtain ⟨s, t, hs, ht, hlt⟩ := ih
        obtain ⟨t', ht', hp⟩ := hup _ _ hp
        rw [ht] at ht'
        cases ht'
        obtain ⟨u, hu, hd⟩ := hsound.below ht hp
        exact ⟨s, u, hs, hu, by omega⟩
    intro i h
    obtain ⟨s, t, hs, ht, hlt⟩ := hdown i i h
    rw [hs] at ht
    cases ht
    omega

/-- A graph built from the retained parents retains the same ones. -/
theorem map_parent_repaired (records : List Record) (i : Nat) :
    ((ofRecords (repaired records)).step? i).map (·.parent) =
      ((ofRecords records).step? i).map (·.parent) := by
  have hrepaired := getElem?_repaired records i
  cases hs : (ofRecords (repaired records)).step? i with
  | none =>
    have hnone : (repaired records)[i]? = none := by
      rw [step?_ofRecords] at hs
      exact Option.map_eq_none_iff.mp hs
    rw [hnone] at hrepaired
    rw [Option.map_eq_none_iff.mp hrepaired.symm, Option.map_none]
  | some s =>
    rw [(eq_stepOf hs).1] at hrepaired
    obtain ⟨t, ht, hrecord⟩ := Option.map_eq_some_iff.mp hrepaired.symm
    rw [ht, Option.map_some, Option.map_some, (repaired_consistent records).parent_eq_record hs,
      ← hrecord]

/-- The repair of a list of records takes away what it must and nothing else. -/
structure RepairsExactly (records : List Record) : Prop where
  kept : ∀ i s, (ofRecords records).step? i = some s →
    s.parent = none ∨ s.parent = s.record.parent
  lost : ∀ i s p, (ofRecords records).step? i = some s → s.record.parent = some p →
    (s.parent = none ↔ records.length ≤ p ∨ ∃ start, Entry (namedParents records) start i)
  oneOfCycle : ∀ i, OnCycle (namedParents records) i →
    ∃! e, Leads (namedParents records) i e ∧
      ∃ s, (ofRecords records).step? e = some s ∧ s.parent = none
  offCycle : ∀ i s p, (ofRecords records).step? i = some s → s.record.parent = some p →
    p < records.length → ¬ OnCycle (namedParents records) i → s.parent = some p
  notices : ∃ entries : List (Nat × Nat), entries.Pairwise (fun a b => a.1 < b.1) ∧
    (∀ start e, (start, e) ∈ entries ↔ Entry (namedParents records) start e) ∧
    Run.notices records =
      (outsideDrops records ++ entries.map fun a => Defect.cycle a.2).map Defect.notice
  oneNoticeEach : Run.notices records = (defects records).map Defect.notice ∧
    ((defects records).map Defect.step).Nodup ∧
    ∀ i, i ∈ (defects records).map Defect.step ↔
      ∃ s, (ofRecords records).step? i = some s ∧ s.record.parent ≠ none ∧ s.parent = none
  unchanged : Consistent records → Run.notices records = [] ∧
    ∀ i s, (ofRecords records).step? i = some s → s.parent = s.record.parent
  settled : Run.notices (repaired records) = [] ∧ ∀ i,
    ((ofRecords (repaired records)).step? i).map (·.parent) =
      ((ofRecords records).step? i).map (·.parent)

/-- The parents that a graph drops are those outside of the log and one on each cycle,
where the smallest step that leads into the cycle comes to it. -/
theorem ofRecords_repairsExactly (records : List Record) : RepairsExactly records := by
  refine ⟨?_, fun _ _ _ hs hp => parent_eq_none_iff hs hp, fun _ => exists_unique_lost, ?_, ?_, ?_,
    ?_, ?_⟩
  · intro i s hs
    cases hp : s.parent with
    | none => exact .inl rfl
    | some p => exact .inr (parent_recorded hs hp).1.symm
  · intro i s p hs hp hlt hoff
    rw [parent_of_not_onCycle hs hoff, hp, inside_eq_some]
    exact ⟨rfl, hlt⟩
  · obtain ⟨pairs, hsorted, hpairs, heq⟩ := defects_eq records
    refine ⟨pairs, hsorted, hpairs, ?_⟩
    rw [Run.notices, heq]
  · exact ⟨rfl, defect_steps_nodup records, fun _ => mem_defect_steps⟩
  · intro h
    refine ⟨?_, fun i s hs => h.parent_eq_record hs⟩
    rw [Run.notices, h.defects_eq_nil, List.map_nil]
  · refine ⟨?_, map_parent_repaired records⟩
    rw [Run.notices, (repaired_consistent records).defects_eq_nil, List.map_nil]

/-- Step 0 leads to the cycle of the steps 1 and 2 and comes to it at step 2. -/
example : defects [{ parent := some 2 }, { parent := some 2 }, { parent := some 1 },
    { parent := some 9 }] = [.outside 3 9, .cycle 2] := by decide

end StateGraph

end ProofStepper
