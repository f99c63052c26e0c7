import Mathlib.Data.List.Basic
import ProofStepper.Graph.Verifiable
import ProofStepper.Proofs.Graph.Forest

/-!
# Steps grouped by verifiable

Steps are placed one after the other, and the verifiables stay in ascending order. So the
verifiable with a number is made of the steps that bear this number, in their order,
however they lie mixed with others, and at its top level are those of them that have no
parent.
-/
namespace ProofStepper

namespace Verifiable

/-- The verifiable that is made of some steps of one number. -/
def ofSteps? : List Step → Option Verifiable
  | [] => none
  | s :: later => some (later.foldl append (ofStep s))

/-- Ascending numbers. -/
def Sorted (vs : List Verifiable) : Prop := vs.Pairwise fun v w => v.index < w.index

/-- Adds a step to a verifiable that may not be there yet. -/
def join (v? : Option Verifiable) (s : Step) : Verifiable :=
  match v? with
  | none => ofStep s
  | some v => v.append s

variable {s : Step} {vs : List Verifiable}

@[simp] theorem index_ofStep (s : Step) : (ofStep s).index = s.verifiable := rfl

@[simp] theorem index_append (v : Verifiable) (s : Step) : (v.append s).index = v.index := rfl

theorem find?_cons (v : Verifiable) (rest : List Verifiable) (n : Nat) :
    (v :: rest).find? (fun w => w.index = n) =
      if v.index = n then some v else rest.find? fun w => w.index = n := by
  by_cases hn : v.index = n
  · rw [if_pos hn]
    exact List.find?_cons_of_pos (decide_eq_true hn)
  · rw [if_neg hn]
    exact List.find?_cons_of_neg fun he => hn (of_decide_eq_true he)

theorem mem_place {w : Verifiable} (h : w ∈ place s vs) : w.index = s.verifiable ∨ w ∈ vs := by
  induction vs with
  | nil =>
    rw [place, List.mem_singleton] at h
    exact .inl (h ▸ rfl)
  | cons v rest ih =>
    rw [place] at h
    split at h
    · rename_i he
      rcases List.mem_cons.mp h with rfl | hrest
      · exact .inl he.symm
      · exact .inr (List.mem_cons_of_mem _ hrest)
    · split at h
      · rcases List.mem_cons.mp h with rfl | hold
        · exact .inl rfl
        · exact .inr hold
      · rcases List.mem_cons.mp h with rfl | hrest
        · exact .inr List.mem_cons_self
        · exact (ih hrest).imp_right (List.mem_cons_of_mem _)

theorem Sorted.place (h : Sorted vs) (s : Step) : Sorted (place s vs) := by
  induction vs with
  | nil => exact List.pairwise_singleton _ _
  | cons v rest ih =>
    obtain ⟨hfirst, hrest⟩ := List.pairwise_cons.mp h
    rw [Verifiable.place]
    split
    · exact List.pairwise_cons.mpr ⟨hfirst, hrest⟩
    · rename_i hne
      split
      · rename_i hlt
        refine List.pairwise_cons.mpr ⟨fun w hw => ?_, h⟩
        rcases List.mem_cons.mp hw with rfl | hw
        · exact hlt
        · exact Nat.lt_trans hlt (hfirst w hw)
      · rename_i hge
        refine List.pairwise_cons.mpr ⟨fun w hw => ?_, ih hrest⟩
        rcases mem_place hw with he | hw
        · omega
        · exact hfirst w hw

/-- A step comes to the verifiable of its number and to no other one. -/
theorem find?_place (h : Sorted vs) (s : Step) (n : Nat) :
    (place s vs).find? (fun v => v.index = n) =
      if s.verifiable = n then some (join (vs.find? fun v => v.index = n) s)
      else vs.find? fun v => v.index = n := by
  induction vs with
  | nil => rw [place, find?_cons, index_ofStep]; rfl
  | cons v rest ih =>
    obtain ⟨hfirst, hrest⟩ := List.pairwise_cons.mp h
    rw [place]
    split
    · rename_i hv
      rw [find?_cons, index_append, hv, find?_cons]
      split <;> rfl
    · rename_i hv
      split
      · rename_i hlt
        rw [find?_cons, index_ofStep]
        split
        · rename_i hn
          have hnone : (v :: rest).find? (fun w => w.index = n) = none := by
            refine List.find?_eq_none.mpr fun w hw => ?_
            have hlarger : s.verifiable < w.index := by
              rcases List.mem_cons.mp hw with rfl | hw
              · exact hlt
              · exact Nat.lt_trans hlt (hfirst w hw)
            simp only [decide_eq_true_eq]
            omega
          rw [hnone]
          rfl
        · rfl
      · rw [find?_cons, find?_cons, ih hrest]
        split
        · rename_i hn
          rw [if_neg fun he => hv (he.trans hn.symm)]
        · rfl

theorem foldl_join (steps : List Step) (v : Verifiable) :
    steps.foldl (fun v? s => some (join v? s)) (some v) = some (steps.foldl append v) := by
  induction steps generalizing v with
  | nil => rfl
  | cons s later ih => exact ih (v.append s)

theorem find?_foldl_place (steps : List Step) (h : Sorted vs) (n : Nat) :
    (steps.foldl (fun vs s => place s vs) vs).find? (fun v => v.index = n) =
      (steps.filter fun s => s.verifiable = n).foldl (fun v? s => some (join v? s))
        (vs.find? fun v => v.index = n) := by
  induction steps generalizing vs with
  | nil => rfl
  | cons s later ih =>
    rw [List.foldl_cons, ih (h.place s), find?_place h]
    by_cases hn : s.verifiable = n
    · rw [if_pos hn, List.filter_cons_of_pos (by simpa using hn)]
      rfl
    · rw [if_neg hn, List.filter_cons_of_neg (by simpa using hn)]

theorem index_foldl (steps : List Step) (v : Verifiable) :
    (steps.foldl append v).index = v.index := by
  induction steps generalizing v with
  | nil => rfl
  | cons s later ih => exact ih (v.append s)

theorem topLevel_foldl (steps : List Step) (v : Verifiable) :
    (steps.foldl append v).topLevel = v.topLevel ++ steps.flatMap topLevelOf := by
  induction steps generalizing v with
  | nil => rw [List.foldl_nil, List.flatMap_nil, List.append_nil]
  | cons s later ih =>
    rw [List.foldl_cons, ih, List.flatMap_cons, ← List.append_assoc]
    rfl

theorem steps_foldl (steps : List Step) (v : Verifiable) :
    (steps.foldl append v).steps = v.steps ++ steps.map (·.index) := by
  induction steps generalizing v with
  | nil => rw [List.foldl_nil, List.map_nil, List.append_nil]
  | cons s later ih =>
    rw [List.foldl_cons, ih, List.map_cons, append, List.append_assoc]
    rfl

theorem flatMap_topLevelOf (steps : List Step) :
    steps.flatMap topLevelOf = (steps.filter fun s => s.parent = none).map (·.index) := by
  induction steps with
  | nil => rfl
  | cons s later ih =>
    rw [List.flatMap_cons, ih]
    by_cases hs : s.parent = none
    · rw [List.filter_cons_of_pos (by simpa using hs)]
      simp [topLevelOf, hs]
    · rw [List.filter_cons_of_neg (by simpa using hs)]
      simp [topLevelOf, hs]

theorem index_of_ofSteps? {steps : List Step} {v : Verifiable} {n : Nat}
    (h : ofSteps? steps = some v) (hn : ∀ s ∈ steps, s.verifiable = n) : v.index = n := by
  cases steps with
  | nil => cases h
  | cons s later =>
    cases h
    rw [index_foldl]
    exact hn s List.mem_cons_self

theorem steps_of_ofSteps? {steps : List Step} {v : Verifiable} (h : ofSteps? steps = some v) :
    v.steps = steps.map (·.index) := by
  cases steps with
  | nil => cases h
  | cons s later =>
    cases h
    rw [steps_foldl]
    rfl

theorem topLevel_of_ofSteps? {steps : List Step} {v : Verifiable} (h : ofSteps? steps = some v) :
    v.topLevel = (steps.filter fun s => s.parent = none).map (·.index) := by
  cases steps with
  | nil => cases h
  | cons s later =>
    cases h
    rw [topLevel_foldl, ← flatMap_topLevelOf, List.flatMap_cons]
    rfl

end Verifiable

namespace StateGraph
variable {g : StateGraph}

/-- The verifiable with a number is made of the steps that bear it. -/
theorem find?_verifiables (g : StateGraph) (n : Nat) :
    g.verifiables.find? (fun v => v.index = n) =
      Verifiable.ofSteps? (g.steps.filter fun s => s.verifiable = n) := by
  rw [verifiables, Verifiable.find?_foldl_place g.steps List.Pairwise.nil]
  cases g.steps.filter fun s => s.verifiable = n with
  | nil => rfl
  | cons s later => exact Verifiable.foldl_join later (.ofStep s)

theorem verifiableOf?_eq {i : Nat} {s : Step} (hs : g.step? i = some s) :
    g.verifiableOf? i =
      Verifiable.ofSteps? (g.steps.filter fun t => t.verifiable = s.verifiable) := by
  rw [verifiableOf?, hs, Option.bind_some]
  exact g.find?_verifiables s.verifiable

theorem exists_verifiableOf? {i : Nat} {s : Step} (hs : g.step? i = some s) :
    ∃ v, g.verifiableOf? i = some v ∧ v.index = s.verifiable := by
  have hmem : s ∈ g.steps.filter fun t => t.verifiable = s.verifiable :=
    List.mem_filter.mpr ⟨List.mem_of_getElem? hs, decide_eq_true rfl⟩
  rw [verifiableOf?_eq hs]
  cases hv : Verifiable.ofSteps? (g.steps.filter fun t => t.verifiable = s.verifiable) with
  | none =>
    obtain ⟨t, later, hcons⟩ := List.exists_cons_of_ne_nil (List.ne_nil_of_mem hmem)
    rw [hcons] at hv
    cases hv
  | some v =>
    refine ⟨v, rfl, Verifiable.index_of_ofSteps? hv fun t ht => ?_⟩
    exact of_decide_eq_true (List.mem_filter.mp ht).2

/-- The verifiable of a step is made of the steps that bear the same number. -/
theorem Sound.mem_verifiable_steps (h : g.Sound) {i : Nat} {s : Step} (hs : g.step? i = some s)
    {v : Verifiable} (hv : g.verifiableOf? i = some v) {j : Nat} :
    j ∈ v.steps ↔ ∃ t, g.step? j = some t ∧ t.verifiable = s.verifiable := by
  rw [verifiableOf?_eq hs] at hv
  simp only [Verifiable.steps_of_ofSteps? hv, List.mem_map, List.mem_filter, decide_eq_true_eq]
  constructor
  · rintro ⟨t, ⟨ht, hn⟩, rfl⟩
    exact ⟨t, h.mem_steps.mp ht, hn⟩
  · rintro ⟨t, ht, hn⟩
    exact ⟨t, ⟨List.mem_of_getElem? ht, hn⟩, h.index ht⟩

theorem Sound.filterMap_step? (h : g.Sound) {steps : List Step} (hs : ∀ s ∈ steps, s ∈ g.steps) :
    (steps.map (·.index)).filterMap g.step? = steps := by
  induction steps with
  | nil => rfl
  | cons s later ih =>
    rw [List.map_cons, List.filterMap_cons_some (h.mem_steps.mp (hs s List.mem_cons_self)),
      ih fun t ht => hs t (List.mem_cons_of_mem _ ht)]

/-- At the top level of a verifiable are its steps without a parent, in their order. -/
theorem Sound.shownTopLevel_eq (h : g.Sound) {i : Nat} {s : Step} (hs : g.step? i = some s)
    {v : Verifiable} (hv : g.verifiableOf? i = some v) :
    g.shownTopLevel v = g.steps.filter fun t =>
      t.isShown ∧ t.parent = none ∧ t.verifiable = s.verifiable := by
  rw [verifiableOf?_eq hs] at hv
  rw [shownTopLevel, Verifiable.topLevel_of_ofSteps? hv, h.filterMap_step?]
  · simp only [List.filter_filter, Bool.decide_and, Bool.decide_eq_true]
  · intro t ht
    exact (List.mem_filter.mp (List.mem_filter.mp ht).1).1

end StateGraph

end ProofStepper
