import Mathlib.Data.List.Perm.Subperm
import Mathlib.Data.Set.Finite.Lattice
import Mathlib.Order.Interval.Finset.Nat
import ProofStepper.Graph.Verifiable
import ProofStepper.Proofs.Graph.Forest

/-!
# What an expansion visits

`Unfolds` is the traversal as a recursion over the tree: a step, then all below it, then
the steps after it. The list of pending steps comes to the same. It meets no step twice,
because each one has a single parent, so it is exhausted after no more turns than there are
steps, and fuel for every step of the graph is enough.
-/
namespace ProofStepper.StateGraph
variable {g : StateGraph} {verifiable : Nat}

/-- What is visited from some steps on, depth first and children in their order. Below a
step of another verifiable nothing is visited. -/
inductive Unfolds (g : StateGraph) (verifiable : Nat) : List Nat → List Step → Prop
  | done : Unfolds g verifiable [] []
  | enter {i : Nat} {s : Step} {rest : List Nat} {below after : List Step} :
      g.step? i = some s → s.verifiable = verifiable →
      Unfolds g verifiable (g.children i) below → Unfolds g verifiable rest after →
      Unfolds g verifiable (i :: rest) (s :: below ++ after)
  | prune {i : Nat} {s : Step} {rest : List Nat} {after : List Step} :
      g.step? i = some s → s.verifiable ≠ verifiable → Unfolds g verifiable rest after →
      Unfolds g verifiable (i :: rest) after

theorem Unfolds.mem {pending : List Nat} {visited : List Step}
    (h : g.Unfolds verifiable pending visited) :
    ∀ s ∈ visited, s ∈ g.steps ∧ s.verifiable = verifiable := by
  induction h with
  | done => simp
  | enter hs hv _ _ ihbelow ihafter =>
    intro t ht
    rcases List.mem_append.mp ht with ht | ht
    · rcases List.mem_cons.mp ht with rfl | ht
      · exact ⟨List.mem_of_getElem? hs, hv⟩
      · exact ihbelow t ht
    · exact ihafter t ht
  | prune _ _ _ ih => exact ih

/-- The recursion leaves no choice. -/
theorem Unfolds.unique {pending : List Nat} {visited visited' : List Step}
    (h : g.Unfolds verifiable pending visited) (h' : g.Unfolds verifiable pending visited') :
    visited = visited' := by
  induction h generalizing visited' with
  | done =>
    cases h'
    rfl
  | enter hs hv _ _ ihbelow ihafter =>
    cases h' with
    | enter ht _ hbelow hafter =>
      obtain rfl := Option.some.inj (hs.symm.trans ht)
      rw [ihbelow hbelow, ihafter hafter]
    | prune ht hne _ =>
      obtain rfl := Option.some.inj (hs.symm.trans ht)
      exact absurd hv hne
  | prune hs hne _ ih =>
    cases h' with
    | enter ht hv _ _ =>
      obtain rfl := Option.some.inj (hs.symm.trans ht)
      exact absurd hv hne
    | prune _ _ hafter => exact ih hafter

theorem Ascends.exists_step {i k r : Nat} {t : Step} (h : g.Ascends i k r)
    (ht : g.step? r = some t) : ∃ s, g.step? i = some s := by
  cases h with
  | here => exact ⟨t, ht⟩
  | up hup _ =>
    obtain ⟨s, hs, -⟩ := hup
    exact ⟨s, hs⟩

theorem Ascends.unique {i k r r' : Nat} (h : g.Ascends i k r) (h' : g.Ascends i k r') :
    r = r' := by
  induction h with
  | here i =>
    cases h'
    rfl
  | up hup _ ih =>
    cases h' with
    | up hup' h' =>
      obtain ⟨s, hs, hp⟩ := hup
      obtain ⟨t, ht, hp'⟩ := hup'
      obtain rfl : s = t := Option.some.inj (hs.symm.trans ht)
      obtain rfl := Option.some.inj (hp.symm.trans hp')
      exact ih h'

/-- Two steps of one depth are the same if they lie above one step. -/
theorem Sound.eq_of_ascends (h : g.Sound) {i j j' k k' : Nat} {t t' : Step}
    (ha : g.Ascends i k j) (ha' : g.Ascends i k' j') (ht : g.step? j = some t)
    (ht' : g.step? j' = some t') (hdepth : t.depth = t'.depth) : j = j' := by
  obtain ⟨s, hs⟩ := ha.exists_step ht
  have hk := h.depth_ascends ha hs ht
  have hk' := h.depth_ascends ha' hs ht'
  obtain rfl : k = k' := by omega
  exact ha.unique ha'

/-- After a number of turns no step is pending any more, and `visited` are the steps that
were visited until then. A turn takes the first pending step: its children come to its
place, or it is passed over. -/
inductive Exhausts (g : StateGraph) (verifiable : Nat) : Nat → List Nat → List Step → Prop
  | done : Exhausts g verifiable 0 [] []
  | visit {turns i : Nat} {s : Step} {pending : List Nat} {visited : List Step} :
      g.step? i = some s → s.verifiable = verifiable →
      Exhausts g verifiable turns (g.children i ++ pending) visited →
      Exhausts g verifiable (turns + 1) (i :: pending) (s :: visited)
  | pass {turns i : Nat} {pending : List Nat} {visited : List Step} :
      (∀ s, g.step? i = some s → s.verifiable ≠ verifiable) →
      Exhausts g verifiable turns pending visited →
      Exhausts g verifiable (turns + 1) (i :: pending) visited

theorem explore_nil (g : StateGraph) (verifiable fuel : Nat) :
    g.explore verifiable fuel [] = [] := by
  cases fuel <;> rfl

/-- With fuel for every turn the traversal does not stop early. -/
theorem Exhausts.explore_eq {turns : Nat} {pending : List Nat} {visited : List Step}
    (h : g.Exhausts verifiable turns pending visited) (spare : Nat) :
    g.explore verifiable (turns + spare) pending = visited := by
  induction h with
  | done => exact explore_nil g verifiable _
  | visit hs hv _ ih =>
    rw [Nat.add_right_comm, explore, hs]
    simp only [if_pos hv, ih]
  | @pass _ i _ _ hother _ ih =>
    rw [Nat.add_right_comm, explore]
    cases hs : g.step? i with
    | none => exact ih
    | some s => simp only [if_neg (hother s hs), ih]

/-- The steps of `met` are taken from the pending ones turn by turn, and `visited` are those
among them that are not passed over. -/
structure Explored (g : StateGraph) (verifiable : Nat) (pending : List Nat) (visited : List Step)
    (met : List Nat) : Prop where
  unfolds : g.Unfolds verifiable pending visited
  exhausts : ∀ {turns later others}, g.Exhausts verifiable turns later others →
    g.Exhausts verifiable (met.length + turns) (pending ++ later) (visited ++ others)
  beneath : ∀ j ∈ met, ∃ i ∈ pending, ∃ k, g.Ascends j k i
  visits : (visited.map (·.index)).Sublist met
  distinct : met.Nodup

variable {i : Nat} {s : Step} {rest : List Nat} {below after : List Step} {met met' : List Nat}

theorem explored_nil (g : StateGraph) (verifiable : Nat) : g.Explored verifiable [] [] [] where
  unfolds := .done
  exhausts h := by rwa [List.length_nil, Nat.zero_add]
  beneath j hj := by cases hj
  visits := .slnil
  distinct := List.nodup_nil

theorem Explored.prune (h : g.Explored verifiable rest after met) (hs : g.step? i = some s)
    (hv : s.verifiable ≠ verifiable) (hfresh : i ∉ met) :
    g.Explored verifiable (i :: rest) after (i :: met) where
  unfolds := .prune hs hv h.unfolds
  exhausts hlater := by
    rw [List.length_cons, Nat.add_right_comm]
    refine .pass (fun t ht => ?_) (h.exhausts hlater)
    obtain rfl := Option.some.inj (hs.symm.trans ht)
    exact hv
  beneath j hj := by
    rcases List.mem_cons.mp hj with rfl | hj
    · exact ⟨j, List.mem_cons_self, 0, .here j⟩
    · obtain ⟨p, hp, k, ha⟩ := h.beneath j hj
      exact ⟨p, List.mem_cons_of_mem _ hp, k, ha⟩
  visits := h.visits.cons i
  distinct := List.nodup_cons.mpr ⟨hfresh, h.distinct⟩

theorem Explored.enter (h : g.Sound) (hbelow : g.Explored verifiable (g.children i) below met)
    (hafter : g.Explored verifiable rest after met') (hs : g.step? i = some s)
    (hv : s.verifiable = verifiable) (hfresh : (i :: met ++ met').Nodup) :
    g.Explored verifiable (i :: rest) (s :: below ++ after) (i :: met ++ met') where
  unfolds := .enter hs hv hbelow.unfolds hafter.unfolds
  exhausts {turns later others} hlater := by
    have hturns : (i :: met ++ met').length + turns = met.length + (met'.length + turns) + 1 := by
      simp only [List.cons_append, List.length_cons, List.length_append]
      omega
    rw [hturns, List.cons_append, List.cons_append, List.cons_append, List.append_assoc]
    exact .visit hs hv (hbelow.exhausts (hafter.exhausts hlater))
  beneath j hj := by
    rcases List.mem_append.mp hj with hj | hj
    · rcases List.mem_cons.mp hj with rfl | hj
      · exact ⟨j, List.mem_cons_self, 0, .here j⟩
      · obtain ⟨c, hc, k, ha⟩ := hbelow.beneath j hj
        exact ⟨i, List.mem_cons_self, k + 1, ha.trans (.up (h.mem_children.mp hc) (.here i))⟩
    · obtain ⟨p, hp, k, ha⟩ := hafter.beneath j hj
      exact ⟨p, List.mem_cons_of_mem _ hp, k, ha⟩
  visits := by
    rw [List.map_append, List.map_cons, h.index hs]
    exact (hbelow.visits.cons_cons i).append hafter.visits
  distinct := hfresh

/-- Steps of one depth. -/
def Level (g : StateGraph) (depth : Nat) (pending : List Nat) : Prop :=
  ∀ i ∈ pending, ∃ s, g.step? i = some s ∧ s.depth = depth

theorem Sound.level_children (h : g.Sound) (hs : g.step? i = some s) :
    g.Level (s.depth + 1) (g.children i) := by
  intro c hc
  obtain ⟨t, ht, hp⟩ := h.mem_children.mp hc
  obtain ⟨u, hu, hd⟩ := h.below ht hp
  obtain rfl : s = u := Option.some.inj (hs.symm.trans hu)
  exact ⟨t, ht, hd⟩

/-- What is met from a step on is not met from other steps of its depth. -/
theorem Explored.apart (h : g.Sound) (hrest : g.Explored verifiable rest after met')
    (hlevel : g.Level s.depth rest) (hs : g.step? i = some s) (hi : i ∉ rest) {j k : Nat}
    (ha : g.Ascends j k i) : j ∉ met' := by
  intro hj
  obtain ⟨p, hp, m, hb⟩ := hrest.beneath j hj
  obtain ⟨t, ht, hd⟩ := hlevel p hp
  have heq := h.eq_of_ascends ha hb hs ht hd.symm
  exact hi (heq ▸ hp)

theorem Explored.nodup_enter (h : g.Sound)
    (hbelow : g.Explored verifiable (g.children i) below met)
    (hafter : g.Explored verifiable rest after met') (hlevel : g.Level s.depth rest)
    (hs : g.step? i = some s) (hi : i ∉ rest) : (i :: met ++ met').Nodup := by
  have hnot : i ∉ met := by
    intro hmem
    obtain ⟨c, hc, k, ha⟩ := hbelow.beneath i hmem
    obtain ⟨t, ht, hd⟩ := h.level_children hs c hc
    have := h.depth_ascends ha hs ht
    omega
  refine List.nodup_append.mpr ⟨List.nodup_cons.mpr ⟨hnot, hbelow.distinct⟩, hafter.distinct, ?_⟩
  intro j hj j' hj' he
  subst he
  rcases List.mem_cons.mp hj with rfl | hj
  · exact hafter.apart h hlevel hs hi (.here j) hj'
  · obtain ⟨c, hc, k, ha⟩ := hbelow.beneath j hj
    exact hafter.apart h hlevel hs hi (ha.trans (.up (h.mem_children.mp hc) (.here i))) hj'

/-- Depths are bounded, so going down from some steps of one depth comes to an end. -/
theorem Sound.exists_explored (h : g.Sound) (verifiable : Nat) {bound : Nat}
    (hbound : ∀ s ∈ g.steps, s.depth < bound) (budget : Nat) {depth : Nat}
    (hbudget : bound ≤ depth + budget) {pending : List Nat} (hlevel : g.Level depth pending)
    (hnodup : pending.Nodup) : ∃ visited met, g.Explored verifiable pending visited met := by
  induction budget generalizing depth pending with
  | zero =>
    cases pending with
    | nil => exact ⟨[], [], explored_nil g verifiable⟩
    | cons i rest =>
      obtain ⟨s, hs, hd⟩ := hlevel i List.mem_cons_self
      have := hbound s (List.mem_of_getElem? hs)
      omega
  | succ budget ih =>
    induction pending with
    | nil => exact ⟨[], [], explored_nil g verifiable⟩
    | cons i rest ihrest =>
      obtain ⟨hi, hnodup⟩ := List.nodup_cons.mp hnodup
      obtain ⟨s, hs, rfl⟩ := hlevel i List.mem_cons_self
      have hlater : g.Level s.depth rest := fun j hj => hlevel j (List.mem_cons_of_mem _ hj)
      obtain ⟨after, met', hafter⟩ := ihrest hlater hnodup
      by_cases hv : s.verifiable = verifiable
      · have hchildren : (g.children i).Nodup := (h.children_sorted i).imp Nat.ne_of_lt
        obtain ⟨below, met, hbelow⟩ := ih (by omega) (h.level_children hs) hchildren
        have hfresh := hbelow.nodup_enter h hafter hlater hs hi
        exact ⟨_, _, hbelow.enter h hafter hs hv hfresh⟩
      · exact ⟨_, _, hafter.prune hs hv (hafter.apart h hlater hs hi (.here i))⟩

/-- The steps that are met are steps of the graph, each met once. -/
theorem Explored.length_le {pending : List Nat} (h : g.Explored verifiable pending below met)
    {depth : Nat} (hlevel : g.Level depth pending) : met.length ≤ g.size := by
  have hinside : met ⊆ List.range g.size := by
    intro j hj
    obtain ⟨i, hi, k, ha⟩ := h.beneath j hj
    obtain ⟨t, ht, -⟩ := hlevel i hi
    obtain ⟨s, hs⟩ := ha.exists_step ht
    exact List.mem_range.mpr (List.getElem?_eq_some_iff.mp hs).1
  simpa using (h.distinct.subperm hinside).length_le

/-- Below every step of the graph the traversal ends, and the expansion of the step consists
of the shown steps that were visited. -/
theorem Sound.exists_explored_children (h : g.Sound) (verifiable : Nat) (hs : g.step? i = some s) :
    ∃ visited met, g.Explored verifiable (g.children i) visited met ∧ met.length ≤ g.size ∧
      g.expansion verifiable i = visited.filter Step.isShown := by
  obtain ⟨bound, hbound⟩ := (g.steps.map (·.depth)).finite_toSet.bddAbove
  have hdepths : ∀ t ∈ g.steps, t.depth < bound + 1 := fun t ht =>
    Nat.lt_succ_of_le (hbound (List.mem_map_of_mem ht))
  have hlevel := h.level_children hs
  have hnodup : (g.children i).Nodup := (h.children_sorted i).imp Nat.ne_of_lt
  obtain ⟨visited, met, hexplored⟩ :=
    h.exists_explored verifiable hdepths (bound + 1) (Nat.le_add_left ..) hlevel hnodup
  have hsize := hexplored.length_le hlevel
  refine ⟨visited, met, hexplored, hsize, ?_⟩
  obtain ⟨spare, hspare⟩ := Nat.exists_eq_add_of_le hsize
  have hall := (hexplored.exhausts .done).explore_eq spare
  rw [List.append_nil, List.append_nil, Nat.add_zero, ← hspare] at hall
  rw [expansion, hs]
  exact congrArg (List.filter Step.isShown) hall

/-- An expansion consists of the shown steps that the recursion below the anchor visits. -/
theorem Sound.exists_unfolds (h : g.Sound) (verifiable : Nat) (hs : g.step? i = some s) :
    ∃ visited, g.Unfolds verifiable (g.children i) visited ∧
      g.expansion verifiable i = visited.filter Step.isShown := by
  obtain ⟨visited, _, hexplored, -, hexpansion⟩ := h.exists_explored_children verifiable hs
  exact ⟨visited, hexplored.unfolds, hexpansion⟩

theorem expansion_of_unknown {anchor : Nat} (ha : g.step? anchor = none) :
    g.expansion verifiable anchor = [] := by
  rw [expansion, ha]

theorem Sound.expansion_nodup (h : g.Sound) (verifiable anchor : Nat) :
    ((g.expansion verifiable anchor).map (·.index)).Nodup := by
  cases ha : g.step? anchor with
  | none =>
    rw [expansion_of_unknown ha]
    exact List.nodup_nil
  | some a =>
    obtain ⟨visited, met, hexplored, -, hexpansion⟩ := h.exists_explored_children verifiable ha
    rw [hexpansion]
    exact hexplored.distinct.sublist ((List.filter_sublist.map _).trans hexplored.visits)

theorem Sound.depth_of_mem_expansion (h : g.Sound) {anchor : Step}
    (ha : g.step? i = some anchor) (hs : s ∈ g.expansion verifiable i) :
    anchor.depth < s.depth := by
  obtain ⟨visited, met, hexplored, -, hexpansion⟩ := h.exists_explored_children verifiable ha
  rw [hexpansion] at hs
  have hvisited := List.mem_of_mem_filter hs
  have hvisit := hexplored.visits.subset (List.mem_map_of_mem hvisited)
  obtain ⟨c, hc, k, hup⟩ := hexplored.beneath _ hvisit
  obtain ⟨t, ht, hd⟩ := h.level_children ha c hc
  have hstep := h.mem_steps.mp (hexplored.unfolds.mem s hvisited).1
  have := h.depth_ascends hup hstep ht
  omega

end ProofStepper.StateGraph
