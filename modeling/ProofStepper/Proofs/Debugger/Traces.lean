import Mathlib.Data.List.Induction
import ProofStepper.Proofs.Debugger.Coherence
import ProofStepper.Proofs.Numbering

/-!
# Traces as a function of the history

The answer to a trace request is the trace of the run that the document holds, and which
run that is can be read off the history: the uri was completed with a log while it was
open, and since then it was neither closed nor started nor completed again. Beside this
only the settings count that were set last. So no other operation has an influence on the
answer, wherever in the history it stands.
-/
namespace ProofStepper

/-- At some operation something begins, and it is not ended by a later one. -/
def Since (begins : List Operation → Operation → Prop) (ends : Operation → Prop)
    (history : List Operation) : Prop :=
  ∃ before op after, history = before ++ op :: after ∧ begins before op ∧
    ∀ later ∈ after, ¬ ends later

section
variable {begins : List Operation → Operation → Prop} {ends : Operation → Prop}

theorem not_since_nil : ¬ Since begins ends [] := by
  intro h
  obtain ⟨before, op, after, h, -⟩ := h
  cases before <;> cases h

/-- Whether it lasts can be told from the last operation and from what was before it. -/
theorem since_concat {history : List Operation} {op : Operation} :
    Since begins ends (history ++ [op]) ↔
      begins history op ∨ (Since begins ends history ∧ ¬ ends op) := by
  constructor
  · intro ⟨before, first, after, h, hbegins, hends⟩
    rcases List.eq_nil_or_concat after with rfl | ⟨rest, last, rfl⟩
    · obtain ⟨rfl, hop⟩ := List.append_inj' h rfl
      cases hop
      exact .inl hbegins
    · have hsplit : history ++ [op] = (before ++ first :: rest) ++ [last] := by
        rw [h, List.concat_eq_append, List.append_assoc, List.cons_append]
      obtain ⟨rfl, hop⟩ := List.append_inj' hsplit rfl
      cases hop
      rw [List.concat_eq_append, List.forall_mem_append] at hends
      exact .inr ⟨⟨before, first, rest, rfl, hbegins, hends.1⟩, hends.2 op List.mem_cons_self⟩
  · intro h
    rcases h with hbegins | ⟨⟨before, first, after, rfl, hbegins, hends⟩, hop⟩
    · exact ⟨history, op, [], rfl, hbegins, List.forall_mem_nil _⟩
    · refine ⟨before, first, after ++ [op], ?_, hbegins, ?_⟩
      · rw [List.append_assoc, List.cons_append]
      · rw [List.forall_mem_append, List.forall_mem_singleton]
        exact ⟨hends, hop⟩

end

/-- A history after which a uri is open. -/
def LeavesOpen (uri : String) : List Operation → Prop :=
  Since (fun _ op => op = .openFile uri) (· = .closeFile uri)

/-- An operation after which a run that a uri had before is gone. -/
inductive Operation.DropsRun (uri : String) : Operation → Prop
  | closeFile : DropsRun uri (.closeFile uri)
  | start : DropsRun uri (.start uri)
  | complete (log : ProofLog) : DropsRun uri (.complete uri log)

/-- A history of whose verifications of a uri the one with this log counts: it was completed
while the uri was open, and was not dropped since. -/
def LeavesRun (uri : String) (log : ProofLog) : List Operation → Prop :=
  Since (fun before op => op = .complete uri log ∧ LeavesOpen uri before) (·.DropsRun uri)

def Operation.settings? : Operation → Option Settings
  | .setSettings settings => some settings
  | _ => none

def latestSettings (settings : Settings) (history : List Operation) : Settings :=
  (history.filterMap Operation.settings?).getLastD settings

section
variable {uri : String} {log : ProofLog} {history : List Operation} {op : Operation}

theorem Operation.DropsRun.renews (h : op.DropsRun uri) : op.Renews uri := by
  cases h with
  | closeFile => exact .closeFile
  | start => exact .start
  | complete => exact .complete _

theorem standing_concat (uri : String) (history : List Operation) (op : Operation) :
    standing uri (history ++ [op]) = op.follow uri (standing uri history) := by
  rw [standing, List.foldl_append]
  rfl

theorem leavesOpen_concat : LeavesOpen uri (history ++ [op]) ↔
    op = .openFile uri ∨ (LeavesOpen uri history ∧ op ≠ .closeFile uri) :=
  since_concat

theorem leavesRun_concat : LeavesRun uri log (history ++ [op]) ↔
    (op = .complete uri log ∧ LeavesOpen uri history) ∨
      (LeavesRun uri log history ∧ ¬ op.DropsRun uri) :=
  since_concat

/-- A uri has a standing while it is open. -/
theorem isSome_standing_iff (uri : String) (history : List Operation) :
    (standing uri history).isSome ↔ LeavesOpen uri history := by
  induction history using List.reverseRecOn with
  | nil => exact iff_of_false (by simp [standing]) not_since_nil
  | append_singleton history op ih =>
    rw [standing_concat, leavesOpen_concat, ← ih]
    by_cases hop : op.Renews uri
    · cases hop <;> simp [Operation.follow]
    · have hopen : op ≠ .openFile uri := fun he => hop (he ▸ .openFile)
      have hclose : op ≠ .closeFile uri := fun he => hop (he ▸ .closeFile)
      simp [Operation.follow_of_not_renews hop, hopen, hclose]

/-- The run of a log is held while the verification with this log counts. -/
theorem held_standing_iff (uri : String) (log : ProofLog) (history : List Operation) :
    (standing uri history).bind (·.held) = some log ↔ LeavesRun uri log history := by
  induction history using List.reverseRecOn with
  | nil => exact iff_of_false (by simp [standing]) not_since_nil
  | append_singleton history op ih =>
    rw [standing_concat, leavesRun_concat, ← ih, ← isSome_standing_iff]
    by_cases hop : op.Renews uri
    · cases hop with
      | openFile =>
        have hkept : ¬ (Operation.openFile uri).DropsRun uri := fun h => by cases h
        cases standing uri history <;> simp [Operation.follow, hkept]
      | closeFile => simp [Operation.follow, Operation.DropsRun.closeFile]
      | start =>
        cases standing uri history <;> simp [Operation.follow, Operation.DropsRun.start]
      | complete log' =>
        cases standing uri history <;> simp [Operation.follow, Operation.DropsRun.complete]
    · have hkept : ¬ op.DropsRun uri := fun h => hop h.renews
      have hcomplete : op ≠ .complete uri log := fun he => hop (he ▸ .complete log)
      simp [Operation.follow_of_not_renews hop, hkept, hcomplete]

end

namespace Document
variable {capture : Heap.Capture} {doc doc' : Document} {s : Standing}

/-- A document has the run of its standing. -/
def HasRun (doc : Document) (s : Standing) : Prop :=
  doc.task.run? = s.held.map fun log => Run.ofRecords log.steps

theorem HasRun.congr (h : doc.HasRun s) (hstored : doc'.task.stored = doc.task.stored) :
    doc'.HasRun s := by
  have hsame : doc'.task.run? = doc.task.run? := congrArg (Option.map StampedRun.run) hstored
  exact hsame.trans h

theorem HasRun.effect (h : doc.HasRun s) {uri : String} {op : Operation}
    (hclose : op ≠ .closeFile uri) (hop : op.Concerns uri) (he : doc.Effect capture op doc') :
    ∃ s', op.follow uri (some s) = some s' ∧ doc'.HasRun s' := by
  cases he with
  | close => exact absurd (hop.named rfl ▸ rfl) hclose
  | start => exact ⟨_, if_pos (hop.named rfl), rfl⟩
  | complete => exact ⟨_, if_pos (hop.named rfl), rfl⟩
  | trace _ style => exact ⟨s, rfl, h.congr (doc.task.trace_stored _ style)⟩
  | «show» => exact ⟨s, rfl, h⟩
  | resetDiagnostics => exact ⟨s, rfl, h⟩
  | resetState => exact ⟨s, rfl, h⟩
  | stop => exact ⟨s, rfl, h⟩

theorem run?_of_rel {doc? : Option Document} {s? : Option Standing}
    (h : Option.Rel HasRun doc? s?) : doc?.bind (·.task.run?) =
      (s?.bind (·.held)).map fun log => Run.ofRecords log.steps := by
  cases h with
  | none => rfl
  | some h => exact h

theorem follows_hasRun (capture : Heap.Capture) (uri : String) : Follows capture uri HasRun where
  opened := rfl
  changed h := h.effect

end Document

namespace Debugger
variable {capture : Heap.Capture} {settings : Settings} {disk : Disk} {uri : String}
variable {history : List Operation} {number : Nat}

/-- The run that is held for a uri is that of the log in its standing. -/
theorem run?_after (capture : Heap.Capture) (settings : Settings) (disk : Disk)
    (history : List Operation) (uri : String) :
    ((after capture { settings, disk } history).document? uri).bind (·.task.run?) =
      ((standing uri history).bind (·.held)).map fun log => Run.ofRecords log.steps :=
  Document.run?_of_rel <|
    (Document.follows_hasRun capture uri).after (proper_initial settings disk) .none history

theorem settings_perform (capture : Heap.Capture) (d : Debugger) (op : Operation) :
    (d.perform capture op).state.settings = op.settings?.getD d.settings := by
  by_cases hset : ∃ settings, op = .setSettings settings
  · obtain ⟨settings, rfl⟩ := hset
    rfl
  · have hne : ∀ settings, op ≠ .setSettings settings := by simpa using hset
    rw [(perform_frame capture d op).settings hne]
    cases op with
    | setSettings settings => exact absurd rfl (hne settings)
    | _ => rfl

theorem settings_after (capture : Heap.Capture) (d : Debugger) (history : List Operation) :
    (d.after capture history).settings = latestSettings d.settings history := by
  induction history generalizing d with
  | nil => rfl
  | cons op later ih =>
    have hlater := ih (d.perform capture op).state
    rw [settings_perform] at hlater
    refine hlater.trans ?_
    unfold latestSettings
    cases hop : op.settings? with
    | none => rw [List.filterMap_cons_none hop, Option.getD_none]
    | some settings => rw [List.filterMap_cons_some hop, List.getLastD_cons, Option.getD_some]

/-- The trace that is answered for a run, if there is one. -/
def answerFor (run? : Option Run) (number : Nat) (style : TraceStyle) : Trace :=
  match run? with
  | none => []
  | some run =>
    match run.trace number style with
    | .error _ => []
    | .ok trace => trace

theorem trace_answer (d : Debugger) (uri : String) (number : Nat) :
    (d.trace uri number).answer =
      answerFor ((d.document? uri).bind (·.task.run?)) number d.settings.traceStyle := by
  unfold trace document
  cases d.document? uri with
  | none => rfl
  | some doc =>
    simp only [Task.trace, Task.currentRun, Task.run?, Option.bind_some]
    cases doc.task.stored with
    | none => rfl
    | some stamped =>
      simp only [Option.map_some, answerFor]
      cases stamped.run.trace number d.settings.traceStyle <;> rfl

/-- The answer to a trace request that comes after a history. -/
def traceAfter (capture : Heap.Capture) (settings : Settings) (disk : Disk) (uri : String)
    (number : Nat) (history : List Operation) : Trace :=
  (trace (after capture { settings, disk } history) uri number).answer

theorem traceAfter_eq (capture : Heap.Capture) (settings : Settings) (disk : Disk) (uri : String)
    (number : Nat) (history : List Operation) :
    traceAfter capture settings disk uri number history =
      answerFor (((standing uri history).bind (·.held)).map fun log => Run.ofRecords log.steps)
        number (latestSettings settings history).traceStyle := by
  rw [traceAfter, trace_answer, run?_after, settings_after]

/-- An operation after which the settings are the same, and also which verification of a
uri counts: it may open the uri while it is open, and close, start or complete it while it
is not. -/
structure Harmless (uri : String) (before : List Operation) (op : Operation) : Prop where
  settings : ∀ settings, op ≠ .setSettings settings
  renews : op.Renews uri → (op = .openFile uri ↔ LeavesOpen uri before)

theorem Harmless.follow {before : List Operation} {op : Operation} (h : Harmless uri before op) :
    op.follow uri (standing uri before) = standing uri before := by
  by_cases hop : op.Renews uri
  · have hopen := (h.renews hop).trans (isSome_standing_iff uri before).symm
    cases hs : standing uri before with
    | none =>
      rw [hs] at hopen
      apply Operation.follow_none
      intro he
      cases hopen.mp he
    | some s =>
      rw [hs] at hopen
      rw [hopen.mpr rfl]
      exact if_pos rfl
  · exact Operation.follow_of_not_renews hop _

theorem standing_insert {before : List Operation} {op : Operation} (h : Harmless uri before op)
    (after : List Operation) :
    standing uri (before ++ op :: after) = standing uri (before ++ after) := by
  have hstep := h.follow
  unfold standing at hstep ⊢
  rw [List.foldl_append, List.foldl_cons, hstep, List.foldl_append]

theorem latestSettings_insert {before : List Operation} {op : Operation}
    (h : Harmless uri before op) (settings : Settings) (after : List Operation) :
    latestSettings settings (before ++ op :: after) =
      latestSettings settings (before ++ after) := by
  have hnone : op.settings? = none := by
    cases op with
    | setSettings settings => exact absurd rfl (h.settings settings)
    | _ => rfl
  unfold latestSettings
  rw [List.filterMap_append, List.filterMap_cons_none hnone, List.filterMap_append]

/-- What the answers to trace requests owe to the histories before them. -/
structure FollowsHistory (settings : Settings) (uri : String) (number : Nat)
    (answer : List Operation → Trace) : Prop where
  explained : ∀ history log, LeavesRun uri log history →
    number < log.steps.countP Record.isShown →
    (Run.ofRecords log.steps).trace number (latestSettings settings history).traceStyle =
      .ok (answer history)
  empty : ∀ history, (∀ log, LeavesRun uri log history →
    log.steps.countP Record.isShown ≤ number) → answer history = []
  undisturbed : ∀ before op after, Harmless uri before op →
    answer (before ++ op :: after) = answer (before ++ after)

/-- The answer to a trace request is the trace of the run of the verification that counts,
in the style of the settings that were set last, and it is empty if there is no such
verification or if the run has no such state. -/
theorem traceAfter_followsHistory (capture : Heap.Capture) (settings : Settings) (disk : Disk)
    (uri : String) (number : Nat) :
    FollowsHistory settings uri number (traceAfter capture settings disk uri number) where
  explained history log hlog hnumber := by
    rw [traceAfter_eq, (held_standing_iff uri log history).mpr hlog, Option.map_some, answerFor]
    rw [← Run.shown_length] at hnumber
    obtain ⟨target, htarget⟩ := Run.step_of_lt hnumber
    rw [Run.trace, htarget]
    rfl
  empty history hnone := by
    rw [traceAfter_eq]
    cases hlog : (standing uri history).bind (·.held) with
    | none => rfl
    | some log =>
      have hge := hnone log ((held_standing_iff uri log history).mp hlog)
      rw [Option.map_some, answerFor, Run.trace, Run.step_of_ge hge]
      rfl
  undisturbed before op after h := by
    rw [traceAfter_eq, traceAfter_eq, standing_insert h, latestSettings_insert h]

example : traceAfter Heap.capture {} {} "a.vpr" 0 [.openFile "a.vpr",
    .complete "a.vpr" { steps := [{}, { isShown := true }] }, .openFile "b.vpr", .start "b.vpr",
    .stopDebugging, .openFile "a.vpr"] = [{ state := 0, colour := "orange" }] := by
  decide +kernel

end Debugger

end ProofStepper
