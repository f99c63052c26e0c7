import ProofStepper.Proofs.Debugger.Registry
import ProofStepper.Proofs.Heap.Session

/-!
# What an open document shows

The run, the trace, the diagnostics, the slots and the text about the run are reset by
different operations in different combinations. In every combination an open document
shows nothing without a run, and otherwise only what comes from the run it holds. Which
run that is, and which diagnostics may be left, follows from the history alone.
-/
namespace ProofStepper

/-- The log whose run an open document holds, and the log completed last since it was
opened. -/
structure Standing where
  held : Option ProofLog := none
  latest : Option ProofLog := none
deriving DecidableEq, Repr, Inhabited

/-- How an operation changes the standing of a uri, which has none while it is closed. -/
def Operation.follow (uri : String) : Operation → Option Standing → Option Standing
  | .openFile u, s => if uri = u then some (s.getD {}) else s
  | .closeFile u, s => if uri = u then none else s
  | .start u, s => if uri = u then s.map fun s => { s with held := none } else s
  | .complete u log, s => if uri = u then s.map fun _ => ⟨some log, some log⟩ else s
  | _, s => s

def standing (uri : String) (history : List Operation) : Option Standing :=
  history.foldl (fun s op => op.follow uri s) none

/-- Only an operation that renews a uri changes its standing. -/
theorem Operation.follow_of_not_renews {op : Operation} {uri : String} (h : ¬ op.Renews uri)
    (s : Option Standing) : op.follow uri s = s := by
  cases op with
  | openFile u =>
    have hne : uri ≠ u := by
      rintro rfl
      exact h .openFile
    exact if_neg hne
  | closeFile u =>
    have hne : uri ≠ u := by
      rintro rfl
      exact h .closeFile
    exact if_neg hne
  | start u =>
    have hne : uri ≠ u := by
      rintro rfl
      exact h .start
    exact if_neg hne
  | complete u log =>
    have hne : uri ≠ u := by
      rintro rfl
      exact h (.complete log)
    exact if_neg hne
  | _ => rfl

/-- A uri without a standing gets one by being opened. -/
theorem Operation.follow_none {op : Operation} {uri : String} (h : op ≠ .openFile uri) :
    op.follow uri none = none := by
  cases op with
  | openFile u =>
    have hne : uri ≠ u := by
      rintro rfl
      exact h rfl
    exact if_neg hne
  | closeFile u => exact ite_self none
  | start u => exact ite_self none
  | complete u log => exact ite_self none
  | _ => rfl

namespace Document

/-- A relation of documents to standings that holds once a uri is opened and that every
effect on the document keeps. -/
structure Follows (capture : Heap.Capture) (uri : String) (R : Document → Standing → Prop) :
    Prop where
  opened : R { task := { uri } } {}
  changed {op : Operation} {doc doc' : Document} {s : Standing} : R doc s →
    op ≠ .closeFile uri → op.Concerns uri → doc.Effect capture op doc' →
    ∃ s', op.follow uri (some s) = some s' ∧ R doc' s'

section
variable {capture : Heap.Capture} {uri : String} {R : Document → Standing → Prop}

theorem Follows.turns (hR : Follows capture uri R) {doc? doc?' : Option Document}
    {s : Option Standing} (h : Option.Rel R doc? s) {op : Operation}
    (ht : op.Turns capture uri doc? doc?') : Option.Rel R doc?' (op.follow uri s) := by
  cases ht with
  | opened =>
    rw [Operation.follow, if_pos rfl]
    cases h with
    | none => exact .some hR.opened
    | some h => exact .some h
  | closed =>
    rw [Operation.follow, if_pos rfl]
    exact .none
  | absent hop =>
    cases h
    rw [Operation.follow_none hop]
    exact .none
  | changed hclose hop he =>
    cases h with
    | some h =>
      obtain ⟨s', hs, h⟩ := hR.changed h hclose hop he
      rw [hs]
      exact .some h
  | kept _ hop =>
    rw [Operation.follow_of_not_renews hop]
    exact h

/-- Then a uri has a standing exactly while it is open, and its document is related to it. -/
theorem Follows.after (hR : Follows capture uri R) {d : Debugger} (hd : d.Proper)
    {s : Option Standing} (h : Option.Rel R (d.document? uri) s) (history : List Operation) :
    Option.Rel R ((d.after capture history).document? uri)
      (history.foldl (fun s op => op.follow uri s) s) := by
  induction history generalizing d s with
  | nil => exact h
  | cons op later ih =>
    exact ih (hd.perform capture op) (hR.turns h (hd.turns_perform capture op uri))

end

/-- A document that shows nothing but its diagnostics. -/
structure Blank (doc : Document) : Prop where
  shown : doc.task.shown = none
  slots : ∀ slot, doc.session.store.get? slot = none
  info : doc.session.info = ""

/-- A document that shows nothing that is not of a run, its diagnostics apart. -/
structure ShowsOnly (doc : Document) (run : Run) : Prop where
  shown : ∀ trace, doc.task.shown = some trace →
    ∃ number style, run.trace number style = .ok trace
  slots : ∀ slot snapshot, doc.session.store.get? slot = some snapshot →
    ∃ number step image, run.step number = .ok step ∧ snapshot = Heap.snapshotOf step image
  info : doc.session.info = "" ∨ doc.session.info = run.summary

/-- A document shows what its standing allows. -/
structure Coherent (doc : Document) (s : Standing) : Prop where
  run : doc.task.run? = s.held.map fun log => Run.ofRecords log.steps
  blank : doc.task.run? = none → doc.Blank
  showsOnly : ∀ run, doc.task.run? = some run → doc.ShowsOnly run
  diagnostics : doc.task.diagnostics = [] ∨
    ∃ log, s.latest = some log ∧ doc.task.diagnostics = log.diagnostics

variable {doc : Document} {s : Standing} {run : Run}

theorem Blank.showsOnly (h : doc.Blank) (run : Run) : doc.ShowsOnly run := by
  refine ⟨fun trace ht => ?_, fun slot snapshot hs => ?_, .inl h.info⟩
  · rw [h.shown] at ht
    cases ht
  · rw [h.slots] at hs
    cases hs

theorem get?_ne_some {session : Heap.Session} (h : session.store = {}) {slot : Nat}
    {snapshot : Snapshot} : session.store.get? slot ≠ some snapshot := by
  simp [h]

theorem blank_reset {task : Task} (hshown : task.shown = none) (session : Heap.Session) :
    Blank ⟨task, session.reset⟩ :=
  ⟨hshown, Heap.Store.get?_empty, rfl⟩

theorem coherent_opened (uri : String) : Coherent { task := { uri } } {} := by
  refine ⟨rfl, fun _ => ⟨rfl, Heap.Store.get?_empty, rfl⟩, fun run hrun => ?_, .inl rfl⟩
  cases hrun

theorem Coherent.start (h : doc.Coherent s) :
    Coherent ⟨doc.task.invalidate, doc.session.reset⟩ { s with held := none } := by
  refine ⟨rfl, fun _ => blank_reset rfl _, fun run hrun => ?_, h.diagnostics⟩
  cases hrun

theorem coherent_completed (doc : Document) (log : ProofLog) :
    Coherent ⟨doc.task.complete log, doc.session.reset.setInfo (Debugger.logSummary log)⟩
      ⟨some log, some log⟩ := by
  refine ⟨rfl, fun hrun => ?_, fun run hrun => ?_, .inr ⟨log, rfl, rfl⟩⟩
  · cases hrun
  · cases hrun
    refine ⟨fun trace ht => ?_, fun slot snapshot hs => ?_, .inr rfl⟩
    · cases ht
    · exact absurd hs (get?_ne_some rfl)

/-- Making a trace changes at most the trace that is shown, which then is one of the run
held. -/
theorem Coherent.trace (h : doc.Coherent s) (number : Nat) (style : TraceStyle) :
    Coherent { doc with task := (doc.task.trace number style).state } s := by
  unfold Task.trace Task.currentRun
  cases hstored : doc.task.stored with
  | none => exact h
  | some stamped =>
    have hrun : doc.task.run? = some stamped.run := by rw [Task.run?, hstored, Option.map_some]
    dsimp only
    cases htrace : stamped.run.trace number style with
    | error e => exact h
    | ok trace =>
      have hkept : doc.task.keepTrace stamped.stamp trace =
          { doc.task with shown := some trace } := by
        simp [Task.keepTrace, hstored]
      dsimp only
      rw [hkept]
      refine ⟨h.run, fun hnone => ?_, fun run hsome => ?_, h.diagnostics⟩
      · have hsame : some stamped.run = none := hrun.symm.trans hnone
        cases hsame
      · have hold := h.showsOnly run hsome
        refine ⟨fun shown hs => ?_, hold.slots, hold.info⟩
        have heq : run = stamped.run := Option.some.inj (hsome.symm.trans hrun)
        cases hs
        exact ⟨number, style, heq ▸ htrace⟩

theorem Coherent.push (h : doc.Coherent s) (hrun : doc.task.run? = some run) {number : Nat}
    {step : Step} (hstep : run.step number = .ok step) {image : Bool} {snapshot : Snapshot}
    (hsnapshot : Heap.capture step image = .ok snapshot) {session : Heap.Session}
    (hpush : doc.session.push snapshot = .ok session) : Coherent { doc with session } s := by
  have hpushed := Heap.Session.pushed_of_push hpush
  have hcaptured : snapshot = Heap.snapshotOf step image := (Except.ok.inj hsnapshot).symm
  have hold := h.showsOnly run hrun
  refine ⟨h.run, fun hnone => ?_, fun run' hrun' => ?_, h.diagnostics⟩
  · rw [hrun] at hnone
    cases hnone
  · have heq : run' = run := Option.some.inj (hrun'.symm.trans hrun)
    subst heq
    refine ⟨hold.shown, fun slot stored hs => ?_, ?_⟩
    · rw [hpushed.slots] at hs
      split at hs
      · cases hs
        exact ⟨number, step, image, hstep, hcaptured⟩
      · exact hold.slots slot stored hs
    · rw [hpushed.info]
      exact hold.info

theorem Coherent.resetDiagnostics (h : doc.Coherent s) :
    Coherent { doc with task := doc.task.resetDiagnostics } s := by
  refine ⟨h.run, fun hrun => ?_, fun run hrun => ?_, .inl rfl⟩
  · have hold := h.blank hrun
    exact ⟨hold.shown, hold.slots, hold.info⟩
  · have hold := h.showsOnly run hrun
    exact ⟨hold.shown, hold.slots, hold.info⟩

theorem Coherent.dropSnapshots (h : doc.Coherent s) :
    Coherent { doc with session := doc.session.dropSnapshots } s := by
  refine ⟨h.run, fun hrun => ?_, fun run hrun => ?_, h.diagnostics⟩
  · have hold := h.blank hrun
    exact ⟨hold.shown, Heap.Store.get?_empty, hold.info⟩
  · have hold := h.showsOnly run hrun
    refine ⟨hold.shown, fun slot snapshot hs => ?_, hold.info⟩
    exact absurd hs (get?_ne_some rfl)

theorem Coherent.stop (h : doc.Coherent s) :
    Coherent ⟨doc.task.clearShown, doc.session.reset⟩ s := by
  have hblank : Blank ⟨doc.task.clearShown, doc.session.reset⟩ := blank_reset rfl doc.session
  exact ⟨h.run, fun _ => hblank, fun run _ => hblank.showsOnly run, h.diagnostics⟩

theorem Coherent.effect (h : doc.Coherent s) {uri : String} {op : Operation} {doc' : Document}
    (hclose : op ≠ .closeFile uri) (hop : op.Concerns uri)
    (he : doc.Effect Heap.capture op doc') :
    ∃ s', op.follow uri (some s) = some s' ∧ doc'.Coherent s' := by
  cases he with
  | close => exact absurd (hop.named rfl ▸ rfl) hclose
  | start => exact ⟨_, if_pos (hop.named rfl), h.start⟩
  | complete => exact ⟨_, if_pos (hop.named rfl), coherent_completed doc _⟩
  | trace _ style => exact ⟨s, rfl, h.trace _ style⟩
  | «show» hrun hstep hsnapshot hpush => exact ⟨s, rfl, h.push hrun hstep hsnapshot hpush⟩
  | resetDiagnostics => exact ⟨s, rfl, h.resetDiagnostics⟩
  | resetState => exact ⟨s, rfl, h.dropSnapshots⟩
  | stop => exact ⟨s, rfl, h.stop⟩

theorem follows_coherent (uri : String) : Follows Heap.capture uri Coherent where
  opened := coherent_opened uri
  changed h := h.effect

end Document

namespace Debugger

/-- After any history exactly the uris that it leaves open have a document. It shows
nothing as long as it holds no run. Otherwise its trace, its snapshots and its text about
the run are those of the run it holds, and in either case its diagnostics, if any, are
those of the log completed last since it was opened. -/
theorem after_coherent (settings : Settings) (disk : Disk) (history : List Operation)
    (uri : String) :
    Option.Rel Document.Coherent
      ((after Heap.capture { settings, disk } history).document? uri) (standing uri history) :=
  (Document.follows_coherent uri).after (proper_initial settings disk) .none history

example : standing "a.vpr" [.openFile "a.vpr", .complete "a.vpr" {}, .start "a.vpr",
    .stopDebugging] = some { held := none, latest := some {} } := by decide

end Debugger

end ProofStepper
