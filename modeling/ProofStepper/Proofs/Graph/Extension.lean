import ProofStepper.Proofs.Graph.Drops
import ProofStepper.Proofs.Numbering

/-!
# Logs that go on

If no record of a log names a parent beyond its end, the graph of the log stays as it is
whatever further records come. No way up from an earlier step leads to a later one. Later
steps may lead into the earlier cycles, but each step of a cycle leads into it as well and
comes before them, so the entry of the cycle, where it is cut, remains the same.
-/
namespace ProofStepper

namespace Graph

/-- The later parents begin with the earlier ones, which name no step beyond their end. -/
structure Extends (parents later : List (Option Nat)) : Prop where
  closed : ∀ i p, parentAt parents i = some p → p < parents.length
  same : ∀ i < parents.length, parentAt later i = parentAt parents i

namespace Extends
variable {parents later : List (Option Nat)} {i j p e start : Nat}

theorem parentAt_later (h : Extends parents later) (hp : parentAt parents i = some p) :
    parentAt later i = some p :=
  (h.same i (lt_length_of_parentAt hp)).trans hp

theorem parentAt_earlier (h : Extends parents later) (hi : i < parents.length)
    (hp : parentAt later i = some p) : parentAt parents i = some p :=
  (h.same i hi).symm.trans hp

/-- A way up from an earlier step is an earlier one. -/
theorem leads (h : Extends parents later) (hi : i < parents.length) (hl : Leads later i j) :
    Leads parents i j ∧ j < parents.length := by
  induction hl with
  | refl => exact ⟨.refl, hi⟩
  | tail _ hp ih =>
    have hp := h.parentAt_earlier ih.2 hp
    exact ⟨ih.1.tail hp, h.closed _ _ hp⟩

theorem onCycle_iff (h : Extends parents later) (hi : i < parents.length) :
    OnCycle later i ↔ OnCycle parents i := by
  constructor
  · intro hc
    obtain ⟨p, hp, hl⟩ := hc.exists_parent
    have hp := h.parentAt_earlier hi hp
    exact Relation.TransGen.head' hp (h.leads (h.closed i p hp) hl).1
  · intro hc
    exact Relation.TransGen.mono (fun _ _ hp => h.parentAt_later hp) _ _ hc

theorem meetsCycle_iff (h : Extends parents later) (hi : i < parents.length) :
    MeetsCycle later i e ↔ MeetsCycle parents i e := by
  constructor
  · intro hm
    induction hm with
    | here hc => exact .here ((h.onCycle_iff hi).mp hc)
    | up hoff hp _ ih =>
      have hp := h.parentAt_earlier hi hp
      exact .up (fun hc => hoff ((h.onCycle_iff hi).mpr hc)) hp (ih (h.closed _ _ hp))
  · intro hm
    induction hm with
    | here hc => exact .here ((h.onCycle_iff hi).mpr hc)
    | up hoff hp _ ih =>
      exact .up (fun hc => hoff ((h.onCycle_iff hi).mp hc)) (h.parentAt_later hp)
        (ih (h.closed _ _ hp))

/-- An earlier cycle keeps its entry: it leads into itself from earlier steps. -/
theorem entry_iff (h : Extends parents later) (he : e < parents.length) :
    Entry later start e ↔ Entry parents start e := by
  constructor
  · intro hentry
    have hle : start ≤ e := hentry.least e .refl
    refine ⟨(h.meetsCycle_iff (by omega)).mp hentry.meets, fun i hi => ?_⟩
    exact hentry.least i (hi.mono fun _ _ => h.parentAt_later)
  · intro hentry
    refine ⟨(h.meetsCycle_iff hentry.start_lt).mpr hentry.meets, fun i hi => ?_⟩
    by_cases hin : i < parents.length
    · exact hentry.least i (h.leads hin hi).1
    · have := hentry.start_lt
      omega

end Extends

end Graph

namespace StateGraph
open ProofStepper.Graph
variable {records : List Record} {i : Nat} {s t : Step}

/-- No record names a parent beyond the end of the log. -/
def ParentsInside (records : List Record) : Prop :=
  ∀ record ∈ records, ∀ p ∈ record.parent, p < records.length

instance (records : List Record) : Decidable (ParentsInside records) :=
  inferInstanceAs (Decidable (∀ record ∈ records, ∀ p ∈ record.parent, p < records.length))

theorem length_namedParents (records : List Record) :
    (namedParents records).length = records.length := by
  simp [namedParents, namedInside]

/-- The same record stands behind a step in both graphs. -/
theorem record_append {more : List Record} (hs : (ofRecords records).step? i = some s)
    (ht : (ofRecords (records ++ more)).step? i = some t) : t.record = s.record := by
  have hi : i < records.length := (step?_isSome_iff records i).mp ⟨s, hs⟩
  have hrecord := (eq_stepOf ht).1
  rw [List.getElem?_append_left hi, (eq_stepOf hs).1] at hrecord
  exact (Option.some.inj hrecord).symm

theorem inside_append (h : ParentsInside records) (more : List Record)
    (hs : (ofRecords records).step? i = some s) :
    inside (records ++ more).length s.record.parent = inside records.length s.record.parent := by
  cases hp : s.record.parent with
  | none => rfl
  | some p =>
    have hlt := h _ (List.mem_of_getElem? (eq_stepOf hs).1) p hp
    have hlt' : p < (records ++ more).length := by
      rw [List.length_append]
      omega
    rw [inside_eq_some.mpr ⟨rfl, hlt⟩, inside_eq_some.mpr ⟨rfl, hlt'⟩]

theorem exists_steps_append (more : List Record) (hi : i < records.length) :
    ∃ s t, (ofRecords records).step? i = some s ∧
      (ofRecords (records ++ more)).step? i = some t := by
  obtain ⟨s, hs⟩ := (step?_isSome_iff records i).mpr hi
  obtain ⟨t, ht⟩ := (step?_isSome_iff (records ++ more) i).mpr
    (by rw [List.length_append]; omega)
  exact ⟨s, t, hs, ht⟩

theorem namedParents_append (h : ParentsInside records) (more : List Record) :
    Extends (namedParents records) (namedParents (records ++ more)) := by
  constructor
  · intro i p hp
    rw [length_namedParents]
    exact lt_of_inside hp
  · intro i hi
    rw [length_namedParents] at hi
    obtain ⟨s, t, hs, ht⟩ := exists_steps_append more hi
    rw [parentAt_namedParents hs, parentAt_namedParents ht, record_append hs ht,
      inside_append h more hs]

theorem parent_append (h : ParentsInside records) {more : List Record}
    (hs : (ofRecords records).step? i = some s)
    (ht : (ofRecords (records ++ more)).step? i = some t) : t.parent = s.parent := by
  have hi : i < (namedParents records).length := by
    rw [length_namedParents]
    exact (step?_isSome_iff records i).mp ⟨s, hs⟩
  have hentry (start : Nat) : Entry (namedParents (records ++ more)) start i ↔
      Entry (namedParents records) start i := (namedParents_append h more).entry_iff hi
  by_cases hcut : ∃ start, Entry (namedParents records) start i
  · obtain ⟨start, hstart⟩ := hcut
    rw [parent_of_entry hs hstart, parent_of_entry ht ((hentry start).mpr hstart)]
  · have hkept := not_exists.mp hcut
    rw [parent_of_not_entry hs hkept,
      parent_of_not_entry ht fun start hstart => hkept start ((hentry start).mp hstart),
      record_append hs ht, inside_append h more hs]

theorem up_append (h : ParentsInside records) (more : List Record) {p : Nat}
    (hup : (ofRecords records).Up i p) : (ofRecords (records ++ more)).Up i p := by
  obtain ⟨s, hs, hp⟩ := hup
  obtain ⟨-, t, -, ht⟩ := exists_steps_append more ((step?_isSome_iff records i).mp ⟨s, hs⟩)
  exact ⟨t, ht, (parent_append h hs ht).trans hp⟩

theorem ascends_append (h : ParentsInside records) (more : List Record) {k r : Nat}
    (ha : (ofRecords records).Ascends i k r) : (ofRecords (records ++ more)).Ascends i k r := by
  induction ha with
  | here i => exact .here i
  | up hup _ ih => exact .up (up_append h more hup) ih

/-- The way from a step to its root is the same in both graphs. -/
theorem depth_append (h : ParentsInside records) {more : List Record}
    (hs : (ofRecords records).step? i = some s)
    (ht : (ofRecords (records ++ more)).step? i = some t) : t.depth = s.depth := by
  obtain ⟨r, hr, root, hroot, hnone⟩ := (ofRecords_sound records).reaches_root hs
  obtain ⟨-, root', -, hroot'⟩ :=
    exists_steps_append more ((step?_isSome_iff records r).mp ⟨root, hroot⟩)
  have hr' : (ofRecords (records ++ more)).IsRoot r :=
    ⟨root', hroot', (parent_append h hroot hroot').trans hnone⟩
  obtain ⟨u, hu, hdepth⟩ :=
    (ofRecords_sound (records ++ more)).depth_of_ascends (ascends_append h more hr) hr'
  rw [ht] at hu
  cases hu
  exact hdepth

theorem number_append {more : List Record} (hs : (ofRecords records).step? i = some s)
    (ht : (ofRecords (records ++ more)).step? i = some t) : t.number = s.number := by
  have hi : i ≤ records.length := ((step?_isSome_iff records i).mp ⟨s, hs⟩).le
  have hshown : t.isShown = s.isShown := congrArg Record.isShown (record_append hs ht)
  rw [number_eq hs, number_eq ht, hshown, List.take_append_of_le_length hi]

/-- The steps of a log stay the same when the log goes on. -/
theorem step?_append (h : ParentsInside records) (more : List Record)
    (hs : (ofRecords records).step? i = some s) :
    (ofRecords (records ++ more)).step? i = some s := by
  obtain ⟨-, t, -, ht⟩ := exists_steps_append more ((step?_isSome_iff records i).mp ⟨s, hs⟩)
  have hindex := (ofRecords_sound records).index hs
  have hindex' := (ofRecords_sound (records ++ more)).index ht
  have hrecord := record_append hs ht
  have hparent := parent_append h hs ht
  have hdepth := depth_append h hs ht
  have hnumber := number_append hs ht
  rw [ht]
  cases s
  cases t
  simp_all

end StateGraph

end ProofStepper
