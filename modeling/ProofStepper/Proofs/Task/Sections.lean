import Mathlib.Data.List.Basic
import Mathlib.Data.Nat.Basic
import Mathlib.Order.Basic
import ProofStepper.Task

/-!
# Requests that share a task

Several requests may be under way on one task, each between two of its sections. A new
run is stored in one section and the trace of the old one cleared in the next, and a
trace is made in one section and kept in the next. Whatever the order, the trace that is
kept is one of the run that is stored, unless a request has changed the run and has not
come to clear the trace yet.
-/
namespace ProofStepper.Task

inductive Request where
  | complete (log : ProofLog)
  | invalidate
  | trace (number : Nat) (style : TraceStyle)
  | clearShown
  | resetDiagnostics
deriving DecidableEq, Repr

/-- The section that a request comes to next. -/
inductive Stage where
  | swapRun (log : ProofLog)
  | clearAfterSwap (diagnostics : List Diagnostic)
  | setDiagnostics (diagnostics : List Diagnostic)
  | dropRun
  | clearAfterDrop
  | makeTrace (number : Nat) (style : TraceStyle)
  | keepTrace (stamp : Nat) (trace : Trace)
  | clearShown
deriving DecidableEq, Repr

def Request.first : Request → Stage
  | .complete log => .swapRun log
  | .invalidate => .dropRun
  | .trace number style => .makeTrace number style
  | .clearShown => .clearShown
  | .resetDiagnostics => .setDiagnostics []

namespace Stage

/-- What follows once a trace was made; nothing if there is none. -/
def keeping (t : Task) (number : Nat) (style : TraceStyle) : Option Stage :=
  match t.currentRun with
  | .error _ => none
  | .ok s => (s.run.trace number style).toOption.map (.keepTrace s.stamp)

/-- The task after a section, and the section that follows it in the same request. -/
def run (t : Task) : Stage → Task × Option Stage
  | .swapRun log => (t.swapRun log.steps, some (.clearAfterSwap log.diagnostics))
  | .clearAfterSwap diagnostics => (t.clearShown, some (.setDiagnostics diagnostics))
  | .setDiagnostics diagnostics => (t.setDiagnostics diagnostics, none)
  | .dropRun => (t.dropRun, some .clearAfterDrop)
  | .clearAfterDrop => (t.clearShown, none)
  | .makeTrace number style => (t, keeping t number style)
  | .keepTrace stamp trace => (t.keepTrace stamp trace, none)
  | .clearShown => (t.clearShown, none)

/-- The request has changed the run, and clearing the trace comes next. -/
def OwesClearing : Stage → Prop
  | .clearAfterSwap _ | .clearAfterDrop => True
  | _ => False

end Stage

/-- A task and the requests made to it, each at the place at which it was made. A request
that is over has no stage. -/
structure Shared where
  task : Task
  requests : List (Option Stage) := []
deriving DecidableEq, Repr

namespace Shared

inductive Move where
  | begin (request : Request)
  | proceed (place : Nat)
deriving DecidableEq, Repr

/-- A request begins, or one that is under way goes through its next section. -/
def step (s : Shared) : Move → Shared
  | .begin request => { s with requests := s.requests ++ [some request.first] }
  | .proceed place =>
    match s.requests[place]?.join with
    | none => s
    | some stage =>
      let (task, next) := stage.run s.task
      { task, requests := s.requests.set place next }

def after (s : Shared) (moves : List Move) : Shared := moves.foldl step s

/-- A stage of a request that is under way. -/
def At (s : Shared) (stage : Stage) : Prop := some stage ∈ s.requests

/-- No request is between changing the run and clearing the trace. -/
def Settled (s : Shared) : Prop := ∀ stage, s.At stage → ¬ stage.OwesClearing

/-- What a request makes of a task on which no other one is under way. -/
def perform (t : Task) : Request → Task
  | .complete log => t.complete log
  | .invalidate => t.invalidate
  | .trace number style => (t.trace number style).state
  | .clearShown => t.clearShown
  | .resetDiagnostics => t.resetDiagnostics

/-- A request that is never interrupted does what its operation does. -/
theorem after_alone (t : Task) (request : Request) :
    after ⟨t, [some request.first]⟩ (List.replicate 3 (.proceed 0)) =
      ⟨perform t request, [none]⟩ := by
  cases request with
  | complete log => rfl
  | invalidate => rfl
  | trace number style =>
    simp only [after, List.replicate, List.foldl_cons, List.foldl_nil, step, Request.first,
      List.getElem?_cons_zero, Option.join_some, Stage.run, Stage.keeping, perform, Task.trace]
    cases t.currentRun with
    | error e => rfl
    | ok run =>
      dsimp only
      cases run.run.trace number style <;> rfl
  | clearShown => rfl
  | resetDiagnostics => rfl

end Shared

namespace Stage
variable {t : Task} {stage : Stage}

theorem completions_run (t : Task) (stage : Stage) :
    t.completions ≤ (stage.run t).1.completions := by
  cases stage with
  | swapRun => exact Nat.le_succ _
  | keepTrace =>
    simp only [run, Task.keepTrace]
    split <;> exact le_rfl
  | _ => exact le_rfl

/-- A run is stored already, or it is stored now under a stamp that was never used. -/
theorem stored_run {run : StampedRun} (h : (stage.run t).1.stored = some run) :
    t.stored = some run ∨
      (run.stamp = t.completions ∧ (stage.run t).1.completions = t.completions + 1) := by
  cases stage with
  | swapRun =>
    cases h
    exact .inr ⟨rfl, rfl⟩
  | dropRun => cases h
  | keepTrace stamp trace =>
    left
    simp only [Stage.run, Task.keepTrace] at h
    split at h <;> exact h
  | _ => exact .inl h

/-- A trace to be kept was made from the run that is stored. -/
theorem next_eq_keepTrace {stamp : Nat} {trace : Trace}
    (h : (stage.run t).2 = some (.keepTrace stamp trace)) :
    ∃ number style run, stage = .makeTrace number style ∧ t.stored = some run ∧
      run.stamp = stamp ∧ run.run.trace number style = .ok trace := by
  cases stage with
  | makeTrace number style =>
    simp only [run, keeping, currentRun] at h
    cases hstored : t.stored with
    | none => simp [hstored] at h
    | some stored =>
      rw [hstored] at h
      cases hmade : stored.run.trace number style with
      | error e => simp [hmade, Except.toOption] at h
      | ok made =>
        simp only [hmade, Except.toOption, Option.map_some, Option.some.injEq, keepTrace.injEq] at h
        obtain ⟨rfl, rfl⟩ := h
        exact ⟨number, style, stored, rfl, rfl, rfl, hmade⟩
  | _ => cases h

theorem next_ne_makeTrace (t : Task) (stage : Stage) (number : Nat) (style : TraceStyle) :
    (stage.run t).2 ≠ some (.makeTrace number style) := by
  cases stage with
  | makeTrace =>
    simp only [run, keeping]
    split <;> simp
  | _ => simp [run]

end Stage

namespace Shared
variable {s : Shared} {asked : Nat → TraceStyle → Prop}

/-- A trace of a run that was asked for. -/
def IsTraceOf (asked : Nat → TraceStyle → Prop) (trace : Trace) (run : Run) : Prop :=
  ∃ number style, asked number style ∧ run.trace number style = .ok trace

/-- What holds of a shared task at any time. Stamps tell runs apart, so a trace under way
that bears the stamp of the stored run is one of that run. -/
structure Coherent (asked : Nat → TraceStyle → Prop) (s : Shared) : Prop where
  stamped : ∀ run, s.task.stored = some run → run.stamp < s.task.completions
  asking : ∀ number style, s.At (.makeTrace number style) → asked number style
  made_before : ∀ stamp trace, s.At (.keepTrace stamp trace) → stamp < s.task.completions
  made : ∀ stamp trace run, s.At (.keepTrace stamp trace) → s.task.stored = some run →
    run.stamp = stamp → IsTraceOf asked trace run.run
  shown : s.Settled → ∀ trace, s.task.shown = some trace →
    ∃ run, s.task.stored = some run ∧ IsTraceOf asked trace run.run

theorem coherent_initial (asked : Nat → TraceStyle → Prop) (uri : String) :
    Coherent asked { task := { uri } } := by
  have hnone : ∀ stage, ¬ At { task := { uri } } stage := fun stage h => by cases h
  refine ⟨fun run h => ?_, fun _ _ h => absurd h (hnone _), fun _ _ h => absurd h (hnone _),
    fun _ _ _ h => absurd h (hnone _), fun _ trace h => ?_⟩ <;> cases h

theorem Coherent.begin (h : s.Coherent asked) {request : Request}
    (hasked : ∀ number style, request = .trace number style → asked number style) :
    (s.step (.begin request)).Coherent asked := by
  have hat : ∀ stage, (s.step (.begin request)).At stage →
      s.At stage ∨ stage = request.first := by
    intro stage hstage
    simpa [step, At] using hstage
  have hkeep : ∀ stamp trace, (s.step (.begin request)).At (.keepTrace stamp trace) →
      s.At (.keepTrace stamp trace) := by
    intro stamp trace hstage
    rcases hat _ hstage with hold | hnew
    · exact hold
    · cases request <;> cases hnew
  refine ⟨h.stamped, fun number style hstage => ?_, fun stamp trace hstage => ?_,
    fun stamp trace run hstage => ?_, fun hsettled => ?_⟩
  · rcases hat _ hstage with hold | hnew
    · exact h.asking number style hold
    · cases request <;> cases hnew
      exact hasked _ _ rfl
  · exact h.made_before stamp trace (hkeep stamp trace hstage)
  · exact h.made stamp trace run (hkeep stamp trace hstage)
  · refine h.shown fun stage hstage => hsettled stage ?_
    exact List.mem_append_left _ hstage

section Proceed
variable {place : Nat} {stage : Stage}

theorem step_proceed (hstage : s.requests[place]? = some (some stage)) :
    s.step (.proceed place) =
      ⟨(stage.run s.task).1, s.requests.set place (stage.run s.task).2⟩ := by
  simp only [step, hstage, Option.join_some]

theorem at_proceed (hstage : s.requests[place]? = some (some stage)) {other : Stage}
    (h : (s.step (.proceed place)).At other) :
    s.At other ∨ (stage.run s.task).2 = some other := by
  rw [step_proceed hstage] at h
  rcases List.mem_or_eq_of_mem_set h with hold | hnew
  · exact .inl hold
  · exact .inr hnew.symm

/-- A request that goes on leaves the stages of the others. -/
theorem at_of_at (hstage : s.requests[place]? = some (some stage)) {other : Stage}
    (hother : s.At other) (hne : other ≠ stage) : (s.step (.proceed place)).At other := by
  obtain ⟨i, hi⟩ := List.mem_iff_getElem?.mp hother
  have hplace : place ≠ i := by
    rintro rfl
    rw [hstage] at hi
    cases hi
    exact hne rfl
  rw [step_proceed hstage]
  refine List.mem_iff_getElem?.mpr ⟨i, ?_⟩
  rw [List.getElem?_set_ne hplace]
  exact hi

theorem at_next (hstage : s.requests[place]? = some (some stage)) {next : Stage}
    (hnext : (stage.run s.task).2 = some next) : (s.step (.proceed place)).At next := by
  rw [step_proceed hstage, hnext]
  exact List.mem_set (List.getElem?_eq_some_iff.mp hstage).1 _

/-- A section that clears no trace leaves the requests that have to clear one. -/
theorem settled_of_proceed (hstage : s.requests[place]? = some (some stage))
    (hclears : ¬ stage.OwesClearing) (h : (s.step (.proceed place)).Settled) : s.Settled := by
  intro other hother howes
  refine h other (at_of_at hstage hother ?_) howes
  rintro rfl
  exact hclears howes

/-- The trace that is shown after a section: none or an old one, or the one it kept. -/
theorem Coherent.shown_proceed (h : s.Coherent asked)
    (hstage : s.requests[place]? = some (some stage))
    (hsettled : (s.step (.proceed place)).Settled) {trace : Trace}
    (hshown : (s.step (.proceed place)).task.shown = some trace) :
    ∃ run, (s.step (.proceed place)).task.stored = some run ∧ IsTraceOf asked trace run.run := by
  have hbefore : ¬ stage.OwesClearing → s.Settled := fun hclears =>
    settled_of_proceed hstage hclears hsettled
  have hnext : ∀ next, (stage.run s.task).2 = some next → ¬ next.OwesClearing := fun next hnext =>
    hsettled next (at_next hstage hnext)
  rw [step_proceed hstage] at hshown ⊢
  cases stage with
  | swapRun log => exact absurd trivial (hnext _ rfl)
  | dropRun => exact absurd trivial (hnext _ rfl)
  | clearAfterSwap => cases hshown
  | clearAfterDrop => cases hshown
  | clearShown => cases hshown
  | setDiagnostics => exact h.shown (hbefore id) trace hshown
  | makeTrace => exact h.shown (hbefore id) trace hshown
  | keepTrace stamp made =>
    simp only [Stage.run, Task.keepTrace] at hshown ⊢
    split at hshown
    · rename_i hany
      obtain ⟨run, hrun, hstamp⟩ := (Option.any_eq_true _ _).mp hany
      cases hshown
      rw [if_pos hany]
      exact ⟨run, hrun, h.made stamp trace run (List.mem_of_getElem? hstage) hrun
        (of_decide_eq_true hstamp)⟩
    · rename_i hany
      rw [if_neg hany]
      exact h.shown (hbefore id) trace hshown

theorem Coherent.proceed (h : s.Coherent asked)
    (hstage : s.requests[place]? = some (some stage)) :
    (s.step (.proceed place)).Coherent asked := by
  have htask : (s.step (.proceed place)).task = (stage.run s.task).1 :=
    congrArg Shared.task (step_proceed hstage)
  have hgrows : s.task.completions ≤ (s.step (.proceed place)).task.completions :=
    htask ▸ Stage.completions_run s.task stage
  have hstored : ∀ run, (s.step (.proceed place)).task.stored = some run →
      s.task.stored = some run ∨ (run.stamp = s.task.completions ∧
        (s.step (.proceed place)).task.completions = s.task.completions + 1) := by
    rw [htask]
    exact fun run => Stage.stored_run
  refine ⟨fun run hrun => ?_, fun number style hat => ?_, fun stamp trace hat => ?_,
    fun stamp trace run hat hrun hstamp => ?_, fun hsettled trace => ?_⟩
  · rcases hstored run hrun with hold | ⟨hnew, hcount⟩
    · exact (h.stamped run hold).trans_le hgrows
    · omega
  · rcases at_proceed hstage hat with hold | hnew
    · exact h.asking number style hold
    · exact absurd hnew (Stage.next_ne_makeTrace s.task stage number style)
  · rcases at_proceed hstage hat with hold | hnew
    · exact (h.made_before stamp trace hold).trans_le hgrows
    · obtain ⟨number, style, made, -, hmade, rfl, -⟩ := Stage.next_eq_keepTrace hnew
      exact (h.stamped made hmade).trans_le hgrows
  · rcases at_proceed hstage hat with hold | hnew
    · rcases hstored run hrun with hsame | ⟨hfresh, -⟩
      · exact h.made stamp trace run hold hsame hstamp
      · have := h.made_before stamp trace hold
        omega
    · obtain ⟨number, style, made, rfl, hmade, rfl, htrace⟩ := Stage.next_eq_keepTrace hnew
      rw [htask] at hrun
      obtain rfl : made = run := Option.some.inj (hmade.symm.trans hrun)
      exact ⟨number, style, h.asking number style (List.mem_of_getElem? hstage), htrace⟩
  · exact h.shown_proceed hstage hsettled

end Proceed

theorem Coherent.step (h : s.Coherent asked) {move : Move}
    (hasked : ∀ number style, move = .begin (.trace number style) → asked number style) :
    (s.step move).Coherent asked := by
  cases move with
  | begin request => exact h.begin fun number style he => hasked number style (he ▸ rfl)
  | proceed place =>
    cases hstage : s.requests[place]?.join with
    | none =>
      have hsame : s.step (.proceed place) = s := by simp only [Shared.step, hstage]
      rw [hsame]
      exact h
    | some stage => exact h.proceed (Option.join_eq_some_iff.mp hstage)

theorem Coherent.after (h : s.Coherent asked) {moves : List Move}
    (hasked : ∀ number style, .begin (.trace number style) ∈ moves → asked number style) :
    (s.after moves).Coherent asked := by
  induction moves generalizing s with
  | nil => exact h
  | cons move later ih =>
    have hstep := h.step fun number style he => hasked number style (he ▸ List.mem_cons_self)
    exact ih hstep fun number style hmem => hasked number style (List.mem_cons_of_mem _ hmem)

/-- Whenever no request is between changing the run and clearing the trace, the trace that
is shown, if any, is one of the stored run that was asked for. So without a run none is
shown. -/
theorem shown_of_stored_run (uri : String) (moves : List Move)
    (settled : (after { task := { uri } } moves).Settled) :
    ((after { task := { uri } } moves).task.run? = none →
      (after { task := { uri } } moves).task.shown = none) ∧
    ∀ trace, (after { task := { uri } } moves).task.shown = some trace →
      ∃ run number style, (after { task := { uri } } moves).task.run? = some run ∧
        .begin (.trace number style) ∈ moves ∧ run.trace number style = .ok trace := by
  have hcoherent : (after { task := { uri } } moves).Coherent
      fun number style => .begin (.trace number style) ∈ moves :=
    (coherent_initial _ uri).after fun _ _ hmem => hmem
  have hshown := hcoherent.shown settled
  refine ⟨fun hnone => ?_, fun trace htrace => ?_⟩
  · by_contra hsome
    obtain ⟨trace, htrace⟩ := Option.ne_none_iff_exists'.mp hsome
    obtain ⟨run, hrun, -⟩ := hshown trace htrace
    simp [Task.run?, hrun] at hnone
  · obtain ⟨run, hrun, number, style, hasked, hmade⟩ := hshown trace htrace
    exact ⟨run.run, number, style, by rw [Task.run?, hrun, Option.map_some], hasked, hmade⟩

/-- A second run is stored while a trace of the first one is under way, which is not kept.
A trace of the second run is kept before the first one is cleared, which drops it as well,
and another one is kept after that. -/
def overlapping : List Move :=
  [.begin (.complete { steps := [{ isShown := true }] }), .proceed 0, .proceed 0, .proceed 0,
    .begin (.trace 0 {}), .proceed 1,
    .begin (.complete { steps := [{}, { isShown := true }] }), .proceed 2, .proceed 1,
    .begin (.trace 0 { dark := true }), .proceed 3, .proceed 3, .proceed 2,
    .begin (.trace 0 {}), .proceed 4, .proceed 4]

theorem shown_after_overlapping :
    (after { task := { uri := "a.vpr" } } overlapping).Settled ∧
    (after { task := { uri := "a.vpr" } } overlapping).task.shown =
      some [{ state := 0, colour := "orange" }] ∧
    ∃ run number style, (after { task := { uri := "a.vpr" } } overlapping).task.run? = some run ∧
      .begin (.trace number style) ∈ overlapping ∧
      run.trace number style = .ok [{ state := 0, colour := "orange" }] := by
  have hrequests : (after { task := { uri := "a.vpr" } } overlapping).requests =
      [none, none, some (.setDiagnostics []), none, none] := by decide +kernel
  have hshown : (after { task := { uri := "a.vpr" } } overlapping).task.shown =
      some [{ state := 0, colour := "orange" }] := by decide +kernel
  have hsettled : (after { task := { uri := "a.vpr" } } overlapping).Settled := by
    intro stage hstage
    unfold At at hstage
    rw [hrequests] at hstage
    simp only [List.mem_cons, List.not_mem_nil, reduceCtorEq, Option.some.injEq, or_false,
      false_or] at hstage
    subst hstage
    exact id
  exact ⟨hsettled, hshown, (shown_of_stored_run "a.vpr" overlapping hsettled).2 _ hshown⟩

end Shared

end ProofStepper.Task
