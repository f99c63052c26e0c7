import ProofStepper.Proofs.Graph.Verifiables
import ProofStepper.Proofs.Trace.Suffix

/-!
# Walks within one verifiable

The state made just before another one need not be of the same verifiable, so a walk may
leave the verifiable in which it starts. It does not if the steps of the verifiable lie side
by side and each of them has an earlier one of them as its parent or none: a step with a
parent then is not the first of its verifiable, and the one before it belongs to it as well.
-/
namespace ProofStepper

/-- The steps of a verifiable were made one right after the other, and each is a root or
was derived from an earlier one of them. -/
structure Verifiable.SelfContained (g : StateGraph) (v : Verifiable) : Prop where
  consecutive : ∃ first, v.steps = List.range' first v.steps.length
  parents : ∀ s ∈ g.steps, s.index ∈ v.steps → ∀ p ∈ s.parent, p < s.index ∧ p ∈ v.steps

namespace Verifiable.SelfContained
variable {g : StateGraph} {v : Verifiable} {s t : Step}

theorem between (h : v.SelfContained g) {i j k : Nat} (hi : i ∈ v.steps) (hk : k ∈ v.steps)
    (hij : i ≤ j) (hjk : j ≤ k) : j ∈ v.steps := by
  obtain ⟨first, hsteps⟩ := h.consecutive
  rw [hsteps, List.mem_range'_1] at hi hk ⊢
  omega

/-- A walk that comes to a step of the verifiable goes on to an earlier one of its steps. -/
theorem next (h : v.SelfContained g) (hg : g.Sound) (hs : g.step? s.index = some s)
    (hv : s.index ∈ v.steps) (hn : g.Next s t) : t.index < s.index ∧ t.index ∈ v.steps := by
  have hmem := List.mem_of_getElem? hs
  cases hn with
  | parent _ hp ht =>
    rw [hg.index ht]
    exact h.parents s hmem hv _ hp
  | @before p _ _ _ hp hi ht =>
    obtain ⟨hlt, hpv⟩ := h.parents s hmem hv p hp
    rw [hg.index ht]
    exact ⟨by omega, h.between hpv hv (by omega) (by omega)⟩

/-- A walk stays in the verifiable. -/
theorem mem_walk (h : v.SelfContained g) (hg : g.Sound) (hs : g.step? s.index = some s)
    (hv : s.index ∈ v.steps) : ∀ u ∈ (g.walk s).steps, u.index ∈ v.steps :=
  hg.forall_mem_walk hs hv fun hstep hu hm => (h.next hg hstep hu hm.1).2

/-- A walk goes on from every step of the verifiable that has a parent. -/
theorem exists_moves (h : v.SelfContained g) (hg : g.Sound) (hs : g.step? s.index = some s)
    (hv : s.index ∈ v.steps) {p : Nat} (hp : s.parent = some p) : ∃ t, g.Moves s t := by
  obtain ⟨hlt, -⟩ := h.parents s (List.mem_of_getElem? hs) hv p hp
  obtain ⟨t, hn⟩ := hg.exists_next hs hp fun _ => Nat.zero_lt_of_lt hlt
  exact ⟨t, hn, (h.next hg hs hv hn).1⟩

end Verifiable.SelfContained

namespace Run
variable {records : List Record} {number : Nat} {target : Step} {v : Verifiable}

/-- A simple trace whose walk keeps to one verifiable. -/
structure KeepsTo (r : Run) (v : Verifiable) (number : Nat) (target : Step) (t : Trace) :
    Prop where
  shows : ∀ e ∈ t, ∃ s, r.step e.state = .ok s ∧ s.index ∈ v.steps
  walked : ∀ s ∈ (r.graph.walk target).steps, s.index ∈ v.steps
  ends : ∃ last ∈ (r.graph.walk target).steps.getLast?, last.parent = none ∧ last.index ∈ v.steps
  noNotices : r.traceNotices number = []

/-- If the verifiable of a client state is self-contained, the trace of the state and the
walk behind it keep to it, whatever the other verifiables of the log look like, and the walk
ends at one of its roots. -/
theorem simple_trace_keepsTo (htarget : (ofRecords records).step number = .ok target)
    (hv : (ofRecords records).graph.verifiableOf? target.index = some v)
    (h : v.SelfContained (ofRecords records).graph) (dark : Bool) :
    ∃ t, (ofRecords records).trace number { mode := .simple, dark } = .ok t ∧
      (ofRecords records).KeepsTo v number target t := by
  have hg : (ofRecords records).graph.Sound := StateGraph.ofRecords_sound records
  have hstep := (step_eq_ok_iff.mp htarget).1
  have hwalked := h.mem_walk hg hstep ((hg.mem_verifiable_steps hstep hv).mpr ⟨target, hstep, rfl⟩)
  obtain ⟨⟨last, hlast, hroot⟩, hblocked⟩ := hg.walk_ends_at_parentless hstep fun u hu p hp =>
    h.exists_moves hg (hg.mem_walk hstep u hu) (hwalked u hu) hp
  refine ⟨_, trace_of_step htarget dark, fun e he => ?_, hwalked,
    ⟨last, hlast, hroot, hwalked last (List.mem_of_getLast? hlast)⟩, ?_⟩
  · obtain ⟨j, hj⟩ := List.mem_iff_getElem?.mp he
    obtain ⟨s, hs, hok⟩ := step_of_entry htarget hj
    exact ⟨s, hok, hwalked s ((withinBound_sublist _ _).subset (List.mem_of_getElem? hs))⟩
  · simp only [traceNotices, htarget, Walk.notices, hblocked]

/-- The verifiable 1 has the records at the indices 2 to 6, a branch with two ways below it.
The parents of the first two records, of another verifiable, form a cycle, and the last
record, of that one again, was derived from a state of verifiable 1. -/
def fencedLog : List Record :=
  [Record.shown (.new 0 (some 1)), Record.shown (.new 0 (some 0)), Record.shown (.new 1 none),
    Record.branch (Record.shown (.new 1 (some 2))), Record.shown (.new 1 (some 3)),
    .new 1 (some 3), Record.shown (.new 1 (some 5)), Record.shown (.new 0 (some 4))]

example : ((ofRecords fencedLog).trace 5 {}).map Trace.states = .ok [5, 4, 3, 2] := by cbv

theorem simple_trace_keepsTo_fenced :
    ∃ target v, (ofRecords fencedLog).step 5 = .ok target ∧
      (ofRecords fencedLog).graph.verifiableOf? target.index = some v ∧
      v.SelfContained (ofRecords fencedLog).graph ∧
      ∃ t, (ofRecords fencedLog).trace 5 { mode := .simple, dark := true } = .ok t ∧
        (ofRecords fencedLog).KeepsTo v 5 target t := by
  have htarget : (ofRecords fencedLog).step 5 =
      .ok ⟨6, Record.shown (.new 1 (some 5)), some 5, 3, some 5⟩ := by decide
  have hv : (ofRecords fencedLog).graph.verifiableOf? 6 =
      some ⟨1, "", "", [2, 3, 4, 5, 6], [2]⟩ := by
    decide
  have hself : Verifiable.SelfContained (ofRecords fencedLog).graph
      ⟨1, "", "", [2, 3, 4, 5, 6], [2]⟩ := ⟨⟨2, rfl⟩, by decide⟩
  exact ⟨_, _, htarget, hv, hself, simple_trace_keepsTo htarget hv hself true⟩

end Run

end ProofStepper
