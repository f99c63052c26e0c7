import ProofStepper.Proofs.Graph.Expansion

/-!
# What an expansion consists of

The expansion of a step within a verifiable holds every shown step from which retained
parents lead up to it through steps of the verifiable alone, and no other step: below a
step of another verifiable nothing is reached, even where the verifiable returns. Each
such step is there once, in the order of the recursion over the tree.
-/
namespace ProofStepper.StateGraph
variable {g : StateGraph} {verifiable : Nat}

/-- Retained parents lead from a step up to another, and every step before that one is of
the verifiable. -/
def ReachesWithin (g : StateGraph) (verifiable i anchor : Nat) : Prop :=
  ∃ moves, 0 < moves ∧ g.Ascends i moves anchor ∧
    ∀ k < moves, ∀ j, g.Ascends i k j → ∃ t, g.step? j = some t ∧ t.verifiable = verifiable

/-- A step and all on the way up from it to step `top`, which counts too, are of the
verifiable. -/
inductive Hangs (g : StateGraph) (verifiable : Nat) : Nat → Step → Prop
  | here {i : Nat} {s : Step} : g.step? i = some s → s.verifiable = verifiable →
      Hangs g verifiable i s
  | under {i c : Nat} {s t : Step} : g.step? i = some t → t.verifiable = verifiable →
      c ∈ g.children i → Hangs g verifiable c s → Hangs g verifiable i s

theorem Ascends.last {i k r : Nat} (h : g.Ascends i (k + 1) r) :
    ∃ p, g.Ascends i k p ∧ g.Up p r := by
  induction k generalizing i with
  | zero =>
    cases h with
    | up hup h =>
      cases h
      exact ⟨i, .here i, hup⟩
  | succ k ih =>
    cases h with
    | up hup h =>
      obtain ⟨p, hp, hlast⟩ := ih h
      exact ⟨p, .up hup hp, hlast⟩

theorem Hangs.ascends (h : g.Sound) {top : Nat} {s : Step} (ha : g.Hangs verifiable top s) :
    ∃ moves, g.Ascends s.index moves top ∧
      ∀ k ≤ moves, ∀ j, g.Ascends s.index k j →
        ∃ t, g.step? j = some t ∧ t.verifiable = verifiable := by
  induction ha with
  | @here i s hs hv =>
    rw [h.index hs]
    refine ⟨0, .here i, fun k hk j hj => ?_⟩
    obtain rfl : k = 0 := by omega
    cases hj
    exact ⟨s, hs, hv⟩
  | @under i c s t ht hv hc _ ih =>
    obtain ⟨moves, hup, hwithin⟩ := ih
    have htop := hup.trans (.up (h.mem_children.mp hc) (.here i))
    refine ⟨moves + 1, htop, fun k hk j hj => ?_⟩
    rcases Nat.lt_or_eq_of_le hk with hlt | rfl
    · exact hwithin k (by omega) j hj
    · obtain rfl := hj.unique htop
      exact ⟨t, ht, hv⟩

theorem hangs_of_ascends (h : g.Sound) {moves top : Nat} {s : Step}
    (hs : g.step? s.index = some s) (hup : g.Ascends s.index moves top)
    (hwithin : ∀ k ≤ moves, ∀ j, g.Ascends s.index k j →
      ∃ t, g.step? j = some t ∧ t.verifiable = verifiable) : g.Hangs verifiable top s := by
  induction moves generalizing top with
  | zero =>
    obtain ⟨t, ht, hv⟩ := hwithin 0 (Nat.le_refl _) top hup
    cases hup
    obtain rfl := Option.some.inj (hs.symm.trans ht)
    exact .here hs hv
  | succ moves ih =>
    obtain ⟨c, hc, hlast⟩ := hup.last
    obtain ⟨t, ht, hv⟩ := hwithin (moves + 1) (Nat.le_refl _) top hup
    have hbelow := ih hc fun k hk j hj => hwithin k (by omega) j hj
    exact .under ht hv (h.mem_children.mpr hlast) hbelow

/-- A way up within a verifiable ends with the move from a child of the anchor. -/
theorem reachesWithin_iff (h : g.Sound) {anchor : Nat} {s : Step}
    (hs : g.step? s.index = some s) :
    g.ReachesWithin verifiable s.index anchor ↔
      ∃ c ∈ g.children anchor, g.Hangs verifiable c s := by
  constructor
  · rintro ⟨moves, hpos, hup, hwithin⟩
    obtain ⟨n, rfl⟩ := Nat.exists_eq_succ_of_ne_zero hpos.ne'
    obtain ⟨c, hc, hlast⟩ := hup.last
    exact ⟨c, h.mem_children.mpr hlast,
      hangs_of_ascends h hs hc fun k hk j hj => hwithin k (by omega) j hj⟩
  · rintro ⟨c, hc, hhangs⟩
    obtain ⟨moves, hup, hwithin⟩ := hhangs.ascends h
    exact ⟨moves + 1, Nat.succ_pos _, hup.trans (.up (h.mem_children.mp hc) (.here anchor)),
      fun k hk j hj => hwithin k (by omega) j hj⟩

/-- From some steps on exactly those are visited that hang below one of them. -/
theorem Unfolds.mem_iff {pending : List Nat} {visited : List Step}
    (hu : g.Unfolds verifiable pending visited) {s : Step} :
    s ∈ visited ↔ ∃ i ∈ pending, g.Hangs verifiable i s := by
  induction hu with
  | done => simp
  | @enter i t rest below after ht hv _ _ ihbelow ihafter =>
    have htop : g.Hangs verifiable i s ↔ s = t ∨ s ∈ below := by
      rw [ihbelow]
      constructor
      · intro hs
        cases hs with
        | here hs _ => exact .inl (Option.some.inj (hs.symm.trans ht))
        | under _ _ hc hs => exact .inr ⟨_, hc, hs⟩
      · rintro (rfl | ⟨c, hc, hs⟩)
        · exact .here ht hv
        · exact .under ht hv hc hs
    rw [List.mem_append, List.mem_cons, List.exists_mem_cons_iff, htop, ihafter]
  | @prune i t rest after ht hv _ ih =>
    have htop : ¬ g.Hangs verifiable i s := by
      intro hs
      cases hs with
      | here hs hown => exact hv (Option.some.inj (hs.symm.trans ht) ▸ hown)
      | under hu hown _ _ => exact hv (Option.some.inj (hu.symm.trans ht) ▸ hown)
    rw [List.exists_mem_cons_iff, ih]
    simp only [htop, false_or]

/-- What the expansion of a step within a verifiable is, for the step at any index. -/
structure Expands (g : StateGraph) (verifiable anchor : Nat) : Prop where
  outside : g.step? anchor = none → g.expansion verifiable anchor = []
  ends : ∀ s, g.step? anchor = some s → ∃ turns visited, turns ≤ g.size ∧
    g.Exhausts verifiable turns (g.children anchor) visited ∧
    g.Unfolds verifiable (g.children anchor) visited ∧
    g.expansion verifiable anchor = visited.filter Step.isShown
  children_sorted : ∀ i, (g.children i).Pairwise (· < ·)
  mem_children : ∀ i c, c ∈ g.children i ↔ g.Up c i
  mem_iff : ∀ s, s ∈ g.expansion verifiable anchor ↔
    s ∈ g.steps ∧ s.isShown = true ∧ g.ReachesWithin verifiable s.index anchor
  once : ((g.expansion verifiable anchor).map (·.index)).Nodup

theorem Sound.expands (h : g.Sound) (verifiable anchor : Nat) : g.Expands verifiable anchor where
  outside := expansion_of_unknown
  ends s hs := by
    obtain ⟨visited, met, hexplored, hsize, hexpansion⟩ := h.exists_explored_children verifiable hs
    have hends := hexplored.exhausts .done
    rw [List.append_nil, List.append_nil, Nat.add_zero] at hends
    exact ⟨met.length, visited, hsize, hends, hexplored.unfolds, hexpansion⟩
  children_sorted := h.children_sorted
  mem_children _ _ := h.mem_children
  mem_iff s := by
    cases ha : g.step? anchor with
    | none =>
      rw [expansion_of_unknown ha]
      refine ⟨fun hs => absurd hs List.not_mem_nil, ?_⟩
      rintro ⟨hs, -, hwithin⟩
      obtain ⟨c, hc, -⟩ := (reachesWithin_iff h (h.mem_steps.mp hs)).mp hwithin
      obtain ⟨t, ht, hp⟩ := h.mem_children.mp hc
      obtain ⟨u, hu, -⟩ := h.below ht hp
      rw [ha] at hu
      cases hu
    | some a =>
      obtain ⟨visited, _, hexplored, -, hexpansion⟩ := h.exists_explored_children verifiable ha
      rw [hexpansion, List.mem_filter]
      constructor
      · rintro ⟨hs, hshown⟩
        have hmem := (hexplored.unfolds.mem s hs).1
        exact ⟨hmem, hshown, (reachesWithin_iff h (h.mem_steps.mp hmem)).mpr
          (hexplored.unfolds.mem_iff.mp hs)⟩
      · rintro ⟨hmem, hshown, hwithin⟩
        exact ⟨hexplored.unfolds.mem_iff.mpr
          ((reachesWithin_iff h (h.mem_steps.mp hmem)).mp hwithin), hshown⟩
  once := h.expansion_nodup verifiable anchor

/-- Whatever parents the records name, the loop over the pending steps ends, and the expansion
of a step consists of the shown steps below it that reach it within the verifiable, each once
and in the order of the recursion. -/
theorem ofRecords_expands (records : List Record) (verifiable anchor : Nat) :
    (ofRecords records).Expands verifiable anchor :=
  (ofRecords_sound records).expands verifiable anchor

example : ((ofRecords [Record.shown (.new 0 none), .new 0 (some 0), Record.shown (.new 0 (some 0)),
    Record.shown (.new 1 (some 0)), Record.shown (.new 0 (some 3)),
    Record.shown (.new 0 (some 1))]).expansion 0 0).map (·.index) = [5, 2] := by
  cbv

end ProofStepper.StateGraph
