import Mathlib.Data.List.Forall2
import ProofStepper.Proofs.Trace.Walk

/-!
# Walks alongside each other

A walk only asks of its steps where their parents are and whether they are branches. If
the steps of one graph have counterparts in another which answer alike, a walk in the one
has a walk in the other alongside it, step by step, and both are blocked or none.
-/
namespace ProofStepper.StateGraph

/-- A step of a graph and the step of another one at the same place. -/
structure Beside (g g' : StateGraph) (s t : Step) : Prop where
  left : g.step? s.index = some s
  right : g'.step? s.index = some t

/-- Every step of a graph has one beside it, which is a branch and has a parent just as it
does. -/
structure Mirrors (g' g : StateGraph) : Prop where
  exists_beside : ∀ s, g.step? s.index = some s → ∃ t, g.Beside g' s t
  parent : ∀ s t, g.Beside g' s t → t.parent = s.parent
  isBranch : ∀ s t, g.Beside g' s t → t.isBranch = s.isBranch

variable {g g' : StateGraph} {s t u : Step}

theorem Sound.beside_index (h : g'.Sound) (hst : g.Beside g' s t) : t.index = s.index :=
  h.index hst.right

theorem Sound.beside_step? (h : g'.Sound) (hst : g.Beside g' s t) :
    g'.step? t.index = some t := by
  rw [h.beside_index hst]
  exact hst.right

namespace Mirrors

theorem exists_of_step? (h : g'.Mirrors g) (hg : g.Sound) {i : Nat} (hs : g.step? i = some s) :
    ∃ t, g.Beside g' s t ∧ g'.step? i = some t := by
  have hi := hg.index hs
  obtain ⟨t, ht⟩ := h.exists_beside s (by rwa [hi])
  exact ⟨t, ht, hi ▸ ht.right⟩

/-- What follows a step on a walk has beside it what follows the step beside. -/
theorem back?_eq_some (h : g'.Mirrors g) (hg : g.Sound) (hg' : g'.Sound)
    (hst : g.Beside g' s t) (hb : g.back? s = some u) :
    ∃ v, g'.back? t = some v ∧ g.Beside g' u v := by
  have hbranch := h.isBranch s t hst
  have hparent := h.parent s t hst
  have ht := hg'.beside_step? hst
  cases (back?_eq_some_iff hst.left).mp hb with
  | parent hs hp hu =>
    obtain ⟨v, huv, hv⟩ := h.exists_of_step? hg hu
    exact ⟨v, (back?_eq_some_iff ht).mpr (.parent (hbranch.trans hs) (hparent.trans hp) hv), huv⟩
  | before hs hp hi hu =>
    obtain ⟨v, huv, hv⟩ := h.exists_of_step? hg hu
    have hi := (hg'.beside_index hst).trans hi
    exact ⟨v, (back?_eq_some_iff ht).mpr (.before (hbranch.trans hs) (hparent.trans hp) hi hv), huv⟩

/-- Where a walk cannot go on, the walk beside it cannot either. -/
theorem back?_eq_none (h : g'.Mirrors g) (hg : g.Sound) (hg' : g'.Sound)
    (hst : g.Beside g' s t) (hb : g.back? s = none) : g'.back? t = none := by
  rw [Option.eq_none_iff_forall_ne_some]
  intro v hv
  have hnext : ∃ u, g.Next s u := by
    cases (back?_eq_some_iff (hg'.beside_step? hst)).mp hv with
    | parent ht hp _ =>
      refine hg.exists_next hst.left ((h.parent s t hst).symm.trans hp) fun hs => ?_
      rw [← h.isBranch s t hst, ht] at hs
      cases hs
    | before _ hp hi _ =>
      refine hg.exists_next hst.left ((h.parent s t hst).symm.trans hp) fun _ => ?_
      rw [← hg'.beside_index hst, hi]
      exact Nat.succ_pos _
  obtain ⟨u, hn⟩ := hnext
  rw [(back?_eq_some_iff hst.left).mpr hn] at hb
  cases hb

/-- Walks from steps that lie beside each other stay so, and are blocked at the same place. -/
theorem walk (h : g'.Mirrors g) (hg : g.Sound) (hg' : g'.Sound) (hst : g.Beside g' s t) :
    List.Forall₂ (g.Beside g') (g.walk s).steps (g'.walk t).steps ∧
      (g'.walk t).blocked = (g.walk s).blocked := by
  have hindex := hg'.beside_index hst
  fun_induction StateGraph.walk g s generalizing t with
  | case1 s hb =>
    rw [StateGraph.walk, h.back?_eq_none hg hg' hst hb]
    exact ⟨.cons hst .nil, rfl⟩
  | case2 s u hb hlt rest =>
    rename_i ih
    obtain ⟨v, hv, huv⟩ := h.back?_eq_some hg hg' hst hb
    have hindex' := hg'.beside_index huv
    obtain ⟨hsteps, hblocked⟩ := ih huv hindex'
    rw [StateGraph.walk, hv]
    simp only [hindex, hindex', if_pos hlt]
    exact ⟨.cons hst hsteps, hblocked⟩
  | case3 s u hb hlt =>
    obtain ⟨v, hv, huv⟩ := h.back?_eq_some hg hg' hst hb
    rw [StateGraph.walk, hv]
    simp only [hindex, hg'.beside_index huv, if_neg hlt, and_true]
    exact .cons hst .nil

end Mirrors

end ProofStepper.StateGraph
