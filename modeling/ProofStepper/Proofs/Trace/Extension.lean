import ProofStepper.Proofs.Graph.Extension
import ProofStepper.Proofs.Trace.Alongside
import ProofStepper.Proofs.Trace.Simple

/-!
# Traces in logs that go on

The steps of a log remain when further records follow, and so do the walks back from them:
a walk asks for no step after the one where it starts, except for the parent of a branch,
and that one belongs to the same log. The client knows the earlier states by the numbers
that they had.
-/
namespace ProofStepper.Run
open StateGraph
variable {records more : List Record} {number i : Nat} {s t : Step}

theorem beside_append (h : ParentsInside records)
    (hst : (ofRecords records).graph.Beside (ofRecords (records ++ more)).graph s t) : t = s :=
  Option.some.inj (hst.right.symm.trans (step?_append h more hst.left))

theorem mirrors_append (h : ParentsInside records) (more : List Record) :
    (ofRecords (records ++ more)).graph.Mirrors (ofRecords records).graph where
  exists_beside s hs := ⟨s, hs, step?_append h more hs⟩
  parent _ _ hst := by rw [beside_append h hst]
  isBranch _ _ hst := by rw [beside_append h hst]

/-- A walk stays the same when the log goes on. -/
theorem walk_append (h : ParentsInside records) (more : List Record)
    (hs : (ofRecords records).graph.step? s.index = some s) :
    ((ofRecords (records ++ more)).graph.walk s).steps = ((ofRecords records).graph.walk s).steps ∧
      ((ofRecords (records ++ more)).graph.walk s).blocked =
        ((ofRecords records).graph.walk s).blocked := by
  obtain ⟨hsteps, hblocked⟩ := (mirrors_append h more).walk (ofRecords_sound records)
    (ofRecords_sound (records ++ more)) ⟨hs, step?_append h more hs⟩
  have hsame := hsteps.imp fun _ _ hst => (beside_append h hst).symm
  rw [List.forall₂_eq_eq_eq] at hsame
  exact ⟨hsame.symm, hblocked⟩

/-- A client state keeps its number when the log goes on. -/
theorem step_append (h : ParentsInside records) (more : List Record)
    (hs : (ofRecords records).step number = .ok s) :
    (ofRecords (records ++ more)).step number = .ok s := by
  obtain ⟨hstep, hnumber⟩ := step_eq_ok_iff.mp hs
  exact step_eq_ok_iff.mpr ⟨step?_append h more hstep, hnumber⟩

/-- A run that has all of another one: its steps, each with its parent, depth and number,
its client states, and for each of these the simple trace and what is reported with it. -/
structure Prolongs (later r : Run) : Prop where
  steps : ∀ i < r.graph.size, ∃ s, r.graph.step? i = some s ∧ later.graph.step? i = some s
  states : ∀ number < r.shown.length, ∃ s, r.step number = .ok s ∧ later.step number = .ok s
  traces : ∀ number < r.shown.length, ∀ dark, ∃ t,
    r.trace number { mode := .simple, dark } = .ok t ∧
      later.trace number { mode := .simple, dark } = .ok t
  notices : ∀ number < r.shown.length, later.traceNotices number = r.traceNotices number

/-- If the parents in a log lie within it, whatever records follow change nothing for the
states that were there before. -/
theorem append_prolongs (h : ParentsInside records) (more : List Record) :
    (ofRecords (records ++ more)).Prolongs (ofRecords records) where
  steps i hi := ⟨_, List.getElem?_eq_getElem hi, step?_append h more (List.getElem?_eq_getElem hi)⟩
  states number hnumber := by
    obtain ⟨s, hs⟩ := step_of_lt hnumber
    exact ⟨s, hs, step_append h more hs⟩
  traces number hnumber dark := by
    obtain ⟨s, hs⟩ := step_of_lt hnumber
    refine ⟨_, trace_of_step hs dark, ?_⟩
    rw [trace_of_step (step_append h more hs), reported, reported,
      (walk_append h more (step_eq_ok_iff.mp hs).1).1]
  notices number hnumber := by
    obtain ⟨s, hs⟩ := step_of_lt hnumber
    have hwalk := (walk_append h more (step_eq_ok_iff.mp hs).1).2
    simp only [traceNotices, hs, step_append h more hs, Walk.notices, hwalk]

/-- A log with a cycle of three, which is entered at the index 1, a way into it, and a branch
that was derived from a later state. -/
def tailedLog : List Record :=
  [Record.shown (.new 0 none), Record.shown (.new 0 (some 3)), .new 0 (some 1),
    Record.branch (Record.shown (.new 0 (some 2))), Record.shown (.new 0 (some 2)),
    Record.branch (Record.shown (.new 0 (some 6))), Record.shown (.new 0 (some 4))]

/-- Records that lead into the cycle of the log before them, on to each other, and nowhere. -/
def latecomers : List Record :=
  [Record.shown (.new 0 (some 2)), .new 1 (some 9), Record.shown (.new 1 (some 8)),
    Record.shown (.new 0 (some 99))]

theorem append_prolongs_latecomers :
    ParentsInside tailedLog ∧
      (ofRecords (tailedLog ++ latecomers)).Prolongs (ofRecords tailedLog) := by
  have h : ParentsInside tailedLog := by decide
  exact ⟨h, append_prolongs h latecomers⟩

end ProofStepper.Run
