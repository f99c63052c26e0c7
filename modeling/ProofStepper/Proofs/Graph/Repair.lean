import Mathlib.Data.List.Chain
import Mathlib.Data.List.Perm.Subperm
import ProofStepper.Graph.Repair

/-!
# What the repair of recorded parents keeps

One climb works on the parents as they are and on the depths found so far. Its chain is
a path of steps without depth, and it ends below a step of known depth, below nothing,
or at the step where the path closed. After the cut the last case is the second one, so
that the depths which `settle` gives are right for the new parents. What a whole survey
keeps is stated in `Survey.Sound`, and it leaves no step without a depth.
-/
namespace ProofStepper.Graph

/-- The depth that a list of depths has for a step. -/
def depthAt (depths : List (Option Nat)) (step : Nat) : Option Nat := depths[step]?.join

theorem lt_length_of_parentAt {parents : List (Option Nat)} {i p : Nat}
    (h : parentAt parents i = some p) : i < parents.length := by
  simp only [parentAt, Option.join_eq_some_iff] at h
  exact (List.getElem?_eq_some_iff.mp h).choose

theorem parentAt_set_self {parents : List (Option Nat)} {i : Nat} (h : i < parents.length)
    (v : Option Nat) : parentAt (parents.set i v) i = v := by
  simp [parentAt, h]

theorem parentAt_set_ne {parents : List (Option Nat)} {i j : Nat} (h : i ≠ j)
    (v : Option Nat) : parentAt (parents.set i v) j = parentAt parents j := by
  simp only [parentAt, List.getElem?_set_ne h]

theorem depthAt_set_self {depths : List (Option Nat)} {i : Nat} (h : i < depths.length)
    (d : Nat) : depthAt (depths.set i (some d)) i = some d := by
  simp [depthAt, h]

theorem depthAt_set_ne {depths : List (Option Nat)} {i j : Nat} (h : i ≠ j)
    (v : Option Nat) : depthAt (depths.set i v) j = depthAt depths j := by
  simp only [depthAt, List.getElem?_set_ne h]

/-- Later depths keep the earlier ones. -/
def Grows (depths later : List (Option Nat)) : Prop :=
  ∀ i d, depthAt depths i = some d → depthAt later i = some d

theorem Grows.refl (depths : List (Option Nat)) : Grows depths depths := fun _ _ h => h

theorem Grows.trans {a b c : List (Option Nat)} (h : Grows a b) (k : Grows b c) : Grows a c :=
  fun i d hi => k i d (h i d hi)

theorem grows_set {depths : List (Option Nat)} {i : Nat} (fresh : depthAt depths i = none)
    (v : Option Nat) : Grows depths (depths.set i v) := by
  intro j d hj
  have hne : i ≠ j := by
    rintro rfl
    rw [fresh] at hj
    cases hj
  rwa [depthAt_set_ne hne]

/-- The depth `d` is right for a step, as far as the step above it tells. -/
def DepthOf (parents depths : List (Option Nat)) (step d : Nat) : Prop :=
  match parentAt parents step with
  | none => d = 0
  | some p => ∃ above, depthAt depths p = some above ∧ d = above + 1

def Agree (parents depths : List (Option Nat)) : Prop :=
  ∀ i d, depthAt depths i = some d → DepthOf parents depths i d

theorem DepthOf.grow {parents depths later : List (Option Nat)} {i d : Nat}
    (h : DepthOf parents depths i d) (hg : Grows depths later) : DepthOf parents later i d := by
  unfold DepthOf at h ⊢
  split at h
  · exact h
  · obtain ⟨above, ha, hd⟩ := h
    exact ⟨above, hg _ _ ha, hd⟩

/-- Giving a step without depth its right one keeps the agreement. -/
theorem Agree.set {parents depths : List (Option Nat)} (h : Agree parents depths) {i d : Nat}
    (hi : i < depths.length) (fresh : depthAt depths i = none) (hd : DepthOf parents depths i d) :
    Agree parents (depths.set i (some d)) := by
  have hg := grows_set fresh (some d)
  intro j e hj
  by_cases hij : i = j
  · subst j
    rw [depthAt_set_self hi] at hj
    cases hj
    exact hd.grow hg
  · rw [depthAt_set_ne hij] at hj
    exact (h j e hj).grow hg

/-- A step without depth may lose its parent: no depth was derived from it. -/
theorem Agree.cut {parents depths : List (Option Nat)} (h : Agree parents depths) {i : Nat}
    (fresh : depthAt depths i = none) : Agree (parents.set i none) depths := by
  intro j d hj
  have hij : i ≠ j := by
    rintro rfl
    rw [fresh] at hj
    cases hj
  simpa only [DepthOf, parentAt_set_ne hij] using h j d hj

/-- In a chain each step is the parent of the one after it. -/
def Linked (parents : List (Option Nat)) (chain : List Nat) : Prop :=
  chain.IsChain fun upper lower => parentAt parents lower = some upper

/-- The parent of the uppermost step says nothing about a chain. -/
theorem Linked.set_top {parents : List (Option Nat)} {top : Nat} {rest : List Nat}
    (h : Linked parents (top :: rest)) (hn : (top :: rest).Nodup) (v : Option Nat) :
    Linked (parents.set top v) (top :: rest) := by
  apply List.IsChain.imp_of_mem_tail_imp _ h
  intro upper lower _ hl hp
  have hne : top ≠ lower := by
    rintro rfl
    exact (List.nodup_cons.mp hn).1 hl
  rwa [parentAt_set_ne hne]

/-- A chain of steps that all lack a depth. -/
structure Fresh (parents depths : List (Option Nat)) (chain : List Nat) : Prop where
  linked : Linked parents chain
  distinct : chain.Nodup
  unknown : ∀ c ∈ chain, depthAt depths c = none
  inside : ∀ c ∈ chain, c < parents.length

theorem Fresh.suffix {parents depths : List (Option Nat)} {chain upper : List Nat}
    (h : Fresh parents depths chain) (hs : upper <:+ chain) : Fresh parents depths upper :=
  ⟨h.linked.suffix hs, h.distinct.sublist hs.sublist, fun c hc => h.unknown c (hs.mem hc),
    fun c hc => h.inside c (hs.mem hc)⟩

/-- The parent of the uppermost step comes on top, if it lacks a depth as well. -/
theorem Fresh.cons {parents depths : List (Option Nat)} {chain : List Nat} {step : Nat}
    (h : Fresh parents depths chain)
    (hlink : ∀ lower ∈ chain.head?, parentAt parents lower = some step) (hmem : step ∉ chain)
    (hd : depthAt depths step = none) (hstep : step < parents.length) :
    Fresh parents depths (step :: chain) := by
  refine ⟨h.linked.cons hlink, List.nodup_cons.mpr ⟨hmem, h.distinct⟩, ?_, ?_⟩
  · simpa using ⟨hd, h.unknown⟩
  · simpa using ⟨hstep, h.inside⟩

/-- Distinct steps of a log are no more than the log has. -/
theorem Fresh.length_le {parents depths : List (Option Nat)} {chain : List Nat}
    (h : Fresh parents depths chain) : chain.length ≤ parents.length := by
  have hs : chain ⊆ List.range parents.length := fun c hc => List.mem_range.mpr (h.inside c hc)
  simpa using (h.distinct.subperm hs).length_le

/-- Along a chain the depths go up by one from the depth of its uppermost step. -/
theorem settle_spec {parents : List (Option Nat)} (chain : List Nat) (first : Nat)
    (depths : List (Option Nat)) (hlen : depths.length = parents.length)
    (fresh : Fresh parents depths chain) (agree : Agree parents depths)
    (htop : ∀ top ∈ chain.head?, DepthOf parents depths top first) :
    (settle first depths chain).length = parents.length ∧
      Agree parents (settle first depths chain) ∧
      Grows depths (settle first depths chain) ∧
      ∀ c ∈ chain, (depthAt (settle first depths chain) c).isSome := by
  induction chain generalizing first depths with
  | nil => exact ⟨hlen, agree, Grows.refl depths, by simp⟩
  | cons top rest ih =>
    have hfresh := fresh.unknown top (by simp)
    have hin : top < depths.length := hlen ▸ fresh.inside top (by simp)
    have hgrow := grows_set hfresh (some first)
    obtain ⟨htop_rest, hdistinct⟩ := List.nodup_cons.mp fresh.distinct
    have hrest : Fresh parents (depths.set top (some first)) rest := by
      refine ⟨fresh.linked.tail, hdistinct, ?_, fun c hc => fresh.inside c (by simp [hc])⟩
      intro c hc
      rw [depthAt_set_ne (by rintro rfl; exact htop_rest hc)]
      exact fresh.unknown c (by simp [hc])
    have hnext : ∀ next ∈ rest.head?,
        DepthOf parents (depths.set top (some first)) next (first + 1) := by
      intro next hnext
      have hparent := fresh.linked.rel_head? hnext
      simp only [DepthOf, hparent]
      exact ⟨first, depthAt_set_self hin first, rfl⟩
    obtain ⟨h₁, h₂, h₃, h₄⟩ := ih (first + 1) (depths.set top (some first)) (by simpa using hlen)
      hrest (agree.set hin hfresh (htop top rfl)) hnext
    refine ⟨h₁, h₂, hgrow.trans h₃, ?_⟩
    intro c hc
    rcases List.mem_cons.mp hc with rfl | hc
    · exact Option.isSome_of_mem (h₃ c first (depthAt_set_self hin first))
    · exact h₄ c hc

namespace Climb

/-- The parents once the step at which the path closed is a root. -/
def repaired (c : Climb) (parents : List (Option Nat)) : List (Option Nat) :=
  match c.cut with
  | some entry => parents.set entry none
  | none => parents

/-- The depth of the uppermost step of the chain. -/
def first (c : Climb) : Nat :=
  match c.base with
  | some depth => depth + 1
  | none => 0

/-- A climb from `start` that has stopped for one of its three reasons. -/
structure Finished (parents depths : List (Option Nat)) (start : Nat) (c : Climb) : Prop where
  fresh : Fresh parents depths c.chain
  top : ∀ top ∈ c.chain.head?, DepthOf (c.repaired parents) depths top c.first
  start : c.chain.getLast? = some start ∨ (depthAt depths start).isSome
  cut : ∀ entry ∈ c.cut, c.chain.head? = some entry

theorem Finished.repaired_fresh {parents depths : List (Option Nat)} {start : Nat} {c : Climb}
    (h : c.Finished parents depths start) : Fresh (c.repaired parents) depths c.chain := by
  unfold repaired
  split
  · rename_i entry hcut
    obtain ⟨rest, hc⟩ := List.head?_eq_some_iff.mp (h.cut entry hcut)
    have hf := h.fresh
    rw [hc] at hf ⊢
    exact ⟨hf.linked.set_top hf.distinct none, hf.distinct, hf.unknown, by simpa using hf.inside⟩
  · exact h.fresh

theorem Finished.agree {parents depths : List (Option Nat)} {start : Nat} {c : Climb}
    (h : c.Finished parents depths start) (ha : Agree parents depths) :
    Agree (c.repaired parents) depths := by
  unfold repaired
  split
  · rename_i entry hcut
    exact ha.cut (h.fresh.unknown entry (List.mem_of_head? (h.cut entry hcut)))
  · exact ha

end Climb

/-- The part of a chain from a step on upwards. -/
theorem dropWhile_ne {step : Nat} {chain : List Nat} (h : step ∈ chain) :
    ∃ lower upper, chain = lower ++ step :: upper ∧
      chain.dropWhile (· ≠ step) = step :: upper := by
  obtain ⟨lower, upper, rfl, hn⟩ := List.eq_append_cons_of_mem h
  refine ⟨lower, upper, rfl, ?_⟩
  rw [List.dropWhile_append_of_pos]
  · simp
  · intro x hx
    simpa using fun hxs : x = step => hn (hxs ▸ hx)

/-- The fuel outlasts the climb: each move makes the chain longer, and a chain is no
longer than the log. -/
theorem climb_finished {parents depths : List (Option Nat)}
    (hin : ∀ i p, parentAt parents i = some p → p < parents.length) {start : Nat}
    (fuel : Nat) (chain : List Nat) (step : Nat) (fresh : Fresh parents depths chain)
    (hstep : step < parents.length)
    (hlink : ∀ lower ∈ chain.head?, parentAt parents lower = some step)
    (hstart : (step :: chain).getLast? = some start)
    (hfuel : parents.length < fuel + chain.length) :
    (climb parents depths fuel chain step).Finished parents depths start := by
  induction fuel generalizing chain step with
  | zero =>
    have := fresh.length_le
    omega
  | succ fuel ih =>
    simp only [climb]
    split
    · rename_i depth hd
      refine ⟨fresh, ?_, ?_, by simp⟩
      · intro top htop
        simp only [Climb.repaired, Climb.first, DepthOf, hlink top htop]
        exact ⟨depth, hd, rfl⟩
      · cases chain with
        | nil =>
          obtain rfl : step = start := by simpa using hstart
          exact .inr (Option.isSome_of_mem hd)
        | cons lower rest => exact .inl (by simpa using hstart)
    · rename_i hd
      split
      · rename_i hmem
        obtain ⟨lower, upper, rfl, hdrop⟩ := dropWhile_ne hmem
        rw [hdrop]
        refine ⟨fresh.suffix (List.suffix_append lower _), ?_, .inl ?_, by simp⟩
        · intro top htop
          obtain rfl : step = top := by simpa using htop
          simp [Climb.repaired, Climb.first, DepthOf, parentAt_set_self hstep]
        · simpa [List.getLast?_cons] using hstart
      · rename_i hmem
        have hcons : Fresh parents depths (step :: chain) := fresh.cons hlink hmem hd hstep
        split
        · rename_i parent hp
          apply ih (step :: chain) parent hcons (hin step parent hp)
          · simpa using hp
          · simpa using hstart
          · simp only [List.length_cons]
            omega
        · rename_i hp
          refine ⟨hcons, ?_, .inl hstart, by simp⟩
          intro top htop
          obtain rfl : step = top := by simpa using htop
          simp [Climb.repaired, Climb.first, DepthOf, hp]

namespace Survey

/-- What holds of a survey between two visits, for the parents inside of the log. -/
structure Sound (recorded : List (Option Nat)) (s : Survey) : Prop where
  parents_length : s.parents.length = recorded.length
  depths_length : s.depths.length = recorded.length
  retained : ∀ i p, parentAt s.parents i = some p → parentAt recorded i = some p
  agree : Agree s.parents s.depths

theorem start_sound (recorded : List (Option Nat)) : (start recorded).Sound recorded := by
  refine ⟨rfl, by simp [start], fun _ _ h => h, ?_⟩
  intro i d hd
  simp only [start, depthAt, List.getElem?_map] at hd
  cases h : recorded[i]? <;> simp [h] at hd

theorem visit_eq (s : Survey) (step : Nat) :
    let c := climb s.parents s.depths (s.parents.length + 1) [] step
    s.visit step =
      ⟨c.repaired s.parents, settle c.first s.depths c.chain, s.cuts ++ c.cut.toList⟩ := by
  simp only [visit]
  obtain ⟨chain, base, cut⟩ := climb s.parents s.depths (s.parents.length + 1) [] step
  cases base <;> cases cut <;> simp [Climb.repaired, Climb.first]

theorem repaired_retained {parents : List (Option Nat)} {c : Climb} {i p : Nat}
    (h : parentAt (c.repaired parents) i = some p) : parentAt parents i = some p := by
  unfold Climb.repaired at h
  split at h
  · rename_i entry _
    by_cases he : entry = i
    · subst entry
      simp only [parentAt, List.getElem?_set, if_true] at h
      split at h <;> simp at h
    · rwa [parentAt_set_ne he] at h
  · exact h

/-- A visit gives its step a depth and keeps those that are there. -/
theorem Sound.visit {recorded : List (Option Nat)} {s : Survey} (h : s.Sound recorded)
    (hin : ∀ i p, parentAt recorded i = some p → p < recorded.length) {step : Nat}
    (hstep : step < recorded.length) :
    (s.visit step).Sound recorded ∧ Grows s.depths (s.visit step).depths ∧
      (depthAt (s.visit step).depths step).isSome := by
  have hc : (climb s.parents s.depths (s.parents.length + 1) [] step).Finished
      s.parents s.depths step := by
    apply climb_finished
    · intro i p hp
      exact h.parents_length ▸ hin i p (h.retained i p hp)
    · exact ⟨.nil, .nil, by simp, by simp⟩
    · exact h.parents_length ▸ hstep
    · simp
    · rfl
    · simp
  have hfresh := hc.repaired_fresh
  rw [visit_eq]
  generalize climb s.parents s.depths (s.parents.length + 1) [] step = c at hc hfresh
  have hlen : (c.repaired s.parents).length = s.parents.length := by
    unfold Climb.repaired
    split <;> simp
  obtain ⟨h₁, h₂, h₃, h₄⟩ := settle_spec c.chain c.first s.depths
    (by rw [hlen, h.parents_length, h.depths_length]) hfresh (hc.agree h.agree) hc.top
  rw [hlen, h.parents_length] at h₁
  refine ⟨⟨by rw [hlen, h.parents_length], h₁, ?_, h₂⟩, h₃, ?_⟩
  · intro i p hp
    exact h.retained i p (repaired_retained hp)
  · rcases hc.start with hs | hs
    · exact h₄ step (List.mem_of_getLast? hs)
    · obtain ⟨d, hd⟩ := Option.isSome_iff_exists.mp hs
      exact Option.isSome_of_mem (h₃ step d hd)

/-- The visits of a list of steps, one after the other. -/
theorem Sound.visits {recorded : List (Option Nat)}
    (hin : ∀ i p, parentAt recorded i = some p → p < recorded.length) (steps : List Nat)
    (hsteps : ∀ i ∈ steps, i < recorded.length) {s : Survey} (h : s.Sound recorded) :
    (steps.foldl Survey.visit s).Sound recorded ∧
      Grows s.depths (steps.foldl Survey.visit s).depths ∧
      ∀ i ∈ steps, (depthAt (steps.foldl Survey.visit s).depths i).isSome := by
  induction steps generalizing s with
  | nil => exact ⟨h, Grows.refl _, by simp⟩
  | cons step rest ih =>
    obtain ⟨hs, hg, hk⟩ := h.visit hin (hsteps step (by simp))
    obtain ⟨h₁, h₂, h₃⟩ := ih (fun i hi => hsteps i (by simp [hi])) hs
    refine ⟨h₁, hg.trans h₂, ?_⟩
    intro i hi
    rcases List.mem_cons.mp hi with rfl | hi
    · obtain ⟨d, hd⟩ := Option.isSome_iff_exists.mp hk
      exact Option.isSome_of_mem (h₂ i d hd)
    · exact h₃ i hi

/-- After the last visit every step of the log has a depth. -/
theorem complete_sound {recorded : List (Option Nat)}
    (hin : ∀ i p, parentAt recorded i = some p → p < recorded.length) :
    (start recorded).complete.Sound recorded ∧
      ∀ i < recorded.length, (depthAt (start recorded).complete.depths i).isSome := by
  obtain ⟨hs, -, hk⟩ := (start_sound recorded).visits hin (List.range recorded.length)
    (fun i hi => List.mem_range.mp hi)
  exact ⟨hs, fun i hi => hk i (List.mem_range.mpr hi)⟩

end Survey

theorem parentAt_inside (recorded : List (Option Nat)) (n i : Nat) :
    parentAt (recorded.map (inside n)) i = inside n (parentAt recorded i) := by
  cases h : recorded[i]? <;> simp [parentAt, h, inside]

theorem inside_eq_some {n p : Nat} {parent : Option Nat} :
    inside n parent = some p ↔ parent = some p ∧ p < n := by
  simp [inside, Option.filter_eq_some_iff]

namespace Forest

variable (recorded : List (Option Nat))

theorem ofRecorded_sound :
    let survey := (Survey.start (recorded.map (inside recorded.length))).complete
    survey.Sound (recorded.map (inside recorded.length)) ∧
      ∀ i < recorded.length, (depthAt survey.depths i).isSome := by
  have hin : ∀ i p, parentAt (recorded.map (inside recorded.length)) i = some p →
      p < (recorded.map (inside recorded.length)).length := by
    intro i p hp
    rw [parentAt_inside, inside_eq_some] at hp
    simpa using hp.2
  simpa using Survey.complete_sound hin

variable {recorded}

/-- A retained parent is the recorded one, and it lies inside of the log. -/
theorem parent_retained {i p : Nat} (h : parentAt (ofRecorded recorded).parents i = some p) :
    parentAt recorded i = some p ∧ p < recorded.length := by
  have := (ofRecorded_sound recorded).1.retained i p h
  rwa [parentAt_inside, inside_eq_some] at this

/-- The depth of a step follows from that of the step above it. -/
theorem depth_spec (recorded : List (Option Nat)) {i : Nat} (hi : i < recorded.length) :
    match parentAt (ofRecorded recorded).parents i with
    | none => (ofRecorded recorded).depths.getD i 0 = 0
    | some p =>
      (ofRecorded recorded).depths.getD i 0 = (ofRecorded recorded).depths.getD p 0 + 1 := by
  obtain ⟨hs, hk⟩ := ofRecorded_sound recorded
  have hread : ∀ j d,
      depthAt (Survey.start (recorded.map (inside recorded.length))).complete.depths j = some d →
        (ofRecorded recorded).depths.getD j 0 = d := by
    intro j d hj
    simp only [depthAt, Option.join_eq_some_iff] at hj
    simp [ofRecorded, hj]
  obtain ⟨d, hd⟩ := Option.isSome_iff_exists.mp (hk i hi)
  have hagree := hs.agree i d hd
  rw [hread i d hd]
  simp only [DepthOf] at hagree
  change match parentAt (Survey.complete _).parents i with | none => _ | some p => _
  split at hagree
  · exact hagree
  · obtain ⟨above, ha, rfl⟩ := hagree
    rw [hread _ above ha]

end Forest

end ProofStepper.Graph
