import Mathlib.Data.List.Chain
import ProofStepper.Proofs.Graph.Forest
import ProofStepper.Trace.Explain

/-!
# Walks as chains of moves

`Next` says where a walk may go on, and `IsWalk` what a walk is: a chain of moves to
smaller indices that stops only where no further move is possible. The walk that is
computed is such a chain. If it was blocked, then at its last step.
-/
namespace ProofStepper.StateGraph

/-- Where a walk goes on from a step: from a branch to its parent, and from any other
step that has a parent to the step made just before. -/
inductive Next (g : StateGraph) (s : Step) : Step → Prop
  | parent {p : Nat} {t : Step} : s.isBranch = true → s.parent = some p →
      g.step? p = some t → Next g s t
  | before {p i : Nat} {t : Step} : s.isBranch = false → s.parent = some p →
      s.index = i + 1 → g.step? i = some t → Next g s t

def Moves (g : StateGraph) (s t : Step) : Prop := g.Next s t ∧ t.index < s.index

structure IsWalk (g : StateGraph) (s : Step) (steps : List Step) : Prop where
  starts : steps.head? = some s
  moves : steps.IsChain g.Moves
  stops : ∀ last ∈ steps.getLast?, ∀ t, ¬ g.Moves last t

section
variable {g : StateGraph} {s t : Step}

theorem IsWalk.single (h : ∀ t, ¬ g.Moves s t) : g.IsWalk s [s] :=
  ⟨rfl, .singleton s, by simpa using h⟩

theorem IsWalk.cons {steps : List Step} (h : g.Moves s t) (w : g.IsWalk t steps) :
    g.IsWalk s (s :: steps) := by
  obtain ⟨rest, rfl⟩ := List.head?_eq_some_iff.mp w.starts
  refine ⟨rfl, .cons_cons h w.moves, ?_⟩
  simpa only [List.getLast?_cons_cons] using w.stops

/-- The indices of a walk go down. -/
theorem IsWalk.sorted {steps : List Step} (w : g.IsWalk s steps) :
    steps.Pairwise fun s t => t.index < s.index := by
  have hmap : (steps.map (·.index)).IsChain (· > ·) :=
    List.isChain_map_of_isChain _ (fun _ _ h => h.2) w.moves
  exact List.pairwise_map.mp hmap.pairwise

theorem back?_eq_some_iff (hs : g.step? s.index = some s) : g.back? s = some t ↔ g.Next s t := by
  simp only [back?, parent?, hs, Option.bind_some]
  constructor
  · intro h
    split at h
    · rename_i hb
      obtain ⟨p, hp, ht⟩ := Option.bind_eq_some_iff.mp h
      exact .parent hb hp ht
    · rename_i hb
      split at h
      · cases h
      · rename_i hp
        obtain ⟨p, hp⟩ := Option.ne_none_iff_exists'.mp (by simpa using hp)
        cases hi : s.index with
        | zero => simp [hi, predecessor?] at h
        | succ i => exact .before (by simpa using hb) hp hi (by simpa [hi, predecessor?] using h)
  · intro h
    cases h with
    | parent hb hp ht => simp [hb, hp, ht]
    | before hb hp hi ht => simp [hb, hp, hi, predecessor?, ht]

theorem Sound.step?_of_next (h : g.Sound) (hn : g.Next s t) : g.step? t.index = some t := by
  cases hn with
  | parent _ _ ht => rwa [h.index ht]
  | before _ _ _ ht => rwa [h.index ht]

/-- The moves that a walk cannot make: only a branch may have its next step after it. -/
theorem Sound.forward_next (h : g.Sound) (hs : g.step? s.index = some s) :
    (g.Next s t ∧ ¬ t.index < s.index) ↔
      s.isBranch = true ∧ s.parent = some t.index ∧ g.step? t.index = some t ∧
        s.index < t.index := by
  constructor
  · rintro ⟨hn, hlt⟩
    have ht := h.step?_of_next hn
    cases hn with
    | @parent p _ hb hp htp =>
      obtain ⟨u, hu, hd⟩ := h.below hs hp
      rw [htp] at hu
      cases hu
      have hne : s.index ≠ t.index := by
        intro he
        rw [he, ht] at hs
        cases hs
        omega
      rw [h.index htp] at hne hlt ⊢
      exact ⟨hb, hp, htp, by omega⟩
    | before _ _ hi htp =>
      rw [h.index htp] at hlt
      omega
  · rintro ⟨hb, hp, ht, hlt⟩
    exact ⟨.parent hb hp ht, by omega⟩

/-- There is a step to go on to from every step that has a parent, unless it is the first
step of all and no branch. -/
theorem Sound.exists_next (h : g.Sound) (hs : g.step? s.index = some s) {p : Nat}
    (hp : s.parent = some p) (hpos : s.isBranch = false → 0 < s.index) : ∃ t, g.Next s t := by
  cases hb : s.isBranch with
  | true =>
    obtain ⟨t, ht, -⟩ := h.below hs hp
    exact ⟨t, .parent hb hp ht⟩
  | false =>
    obtain ⟨i, hi⟩ := Nat.exists_eq_add_one_of_ne_zero (Nat.ne_of_gt (hpos hb))
    have hlt : i < g.steps.length := by
      have := (List.getElem?_eq_some_iff.mp hs).1
      omega
    exact ⟨_, .before hb hp hi (List.getElem?_eq_getElem hlt)⟩

theorem Sound.walk_isWalk (h : g.Sound) (hs : g.step? s.index = some s) :
    g.IsWalk s (g.walk s).steps := by
  fun_induction walk g s with
  | case1 s hb =>
    apply IsWalk.single
    rintro t ⟨hn, -⟩
    rw [(back?_eq_some_iff hs).mpr hn] at hb
    cases hb
  | case2 s t hb hlt rest ih =>
    have hn := (back?_eq_some_iff hs).mp hb
    exact IsWalk.cons ⟨hn, hlt⟩ (ih (h.step?_of_next hn))
  | case3 s t hb hlt =>
    apply IsWalk.single
    rintro u ⟨hn, hu⟩
    rw [(back?_eq_some_iff hs).mpr hn] at hb
    cases hb
    exact hlt hu

/-- What the start of a walk has and every move keeps, all its steps have. -/
theorem Sound.forall_mem_walk (h : g.Sound) {P : Step → Prop} (hs : g.step? s.index = some s)
    (start : P s)
    (moves : ∀ {s t}, g.step? s.index = some s → P s → g.Moves s t → P t) :
    ∀ t ∈ (g.walk s).steps, P t := by
  fun_induction walk g s with
  | case1 s hb => simpa using start
  | case2 s t hb hlt rest ih =>
    have hn := (back?_eq_some_iff hs).mp hb
    exact List.forall_mem_cons.mpr
      ⟨start, ih (h.step?_of_next hn) (moves hs start ⟨hn, hlt⟩)⟩
  | case3 s t hb hlt => simpa using start

theorem Sound.mem_walk (h : g.Sound) (hs : g.step? s.index = some s) :
    ∀ t ∈ (g.walk s).steps, g.step? t.index = some t :=
  h.forall_mem_walk hs hs fun _ _ hm => h.step?_of_next hm.1

/-- A walk is blocked at a branch that was made before its parent, and nowhere else. -/
theorem Sound.blocked_iff (h : g.Sound) (hs : g.step? s.index = some s) (here there : Nat) :
    (g.walk s).blocked = some (here, there) ↔
      ∃ last ∈ (g.walk s).steps.getLast?, last.index = here ∧ last.isBranch = true ∧
        last.parent = some there ∧ here < there := by
  fun_induction walk g s with
  | case1 s hb =>
    simp only [List.getLast?_singleton, Option.mem_some, exists_eq_left', reduceCtorEq, false_iff]
    rintro ⟨rfl, hbr, hp, -⟩
    obtain ⟨t, ht, -⟩ := h.below hs hp
    rw [(back?_eq_some_iff hs).mpr (.parent hbr hp ht)] at hb
    cases hb
  | case2 s t hb hlt rest ih =>
    have ht := h.step?_of_next ((back?_eq_some_iff hs).mp hb)
    obtain ⟨tail, hw⟩ := List.head?_eq_some_iff.mp (h.walk_isWalk ht).starts
    simp only [rest, hw, List.getLast?_cons_cons] at ih ⊢
    exact ih ht
  | case3 s t hb hlt =>
    have hn := (back?_eq_some_iff hs).mp hb
    obtain ⟨hbr, hp, -, hit⟩ := (h.forward_next hs).mp ⟨hn, hlt⟩
    simp only [List.getLast?_singleton, Option.mem_some, exists_eq_left', Option.some.injEq,
      Prod.mk.injEq, hbr, hp, true_and]
    constructor
    · rintro ⟨rfl, rfl⟩
      exact ⟨rfl, rfl, hit⟩
    · rintro ⟨rfl, rfl, -⟩
      exact ⟨rfl, rfl⟩

/-- If a walk goes on from each of its steps that has a parent, it ends at a root. -/
theorem Sound.walk_ends_at_parentless (h : g.Sound) (hs : g.step? s.index = some s)
    (moves : ∀ t ∈ (g.walk s).steps, ∀ p, t.parent = some p → ∃ u, g.Moves t u) :
    (∃ last ∈ (g.walk s).steps.getLast?, last.parent = none) ∧ (g.walk s).blocked = none := by
  have hwalk := h.walk_isWalk hs
  have hend : ∀ last ∈ (g.walk s).steps.getLast?, last.parent = none := by
    intro last hlast
    by_contra hp
    obtain ⟨p, hp⟩ := Option.ne_none_iff_exists'.mp hp
    obtain ⟨u, hu⟩ := moves last (List.mem_of_getLast? hlast) p hp
    exact hwalk.stops last hlast u hu
  constructor
  · obtain ⟨rest, hrest⟩ := List.head?_eq_some_iff.mp hwalk.starts
    have hlast := List.getLast?_eq_some_getLast (List.ne_nil_of_mem (hrest ▸ List.mem_cons_self))
    exact ⟨_, hlast, hend _ hlast⟩
  · rw [Option.eq_none_iff_forall_ne_some]
    rintro ⟨here, there⟩ hblocked
    obtain ⟨last, hlast, -, -, hp, -⟩ := (h.blocked_iff hs here there).mp hblocked
    rw [hend last hlast] at hp
    cases hp

end

end ProofStepper.StateGraph
