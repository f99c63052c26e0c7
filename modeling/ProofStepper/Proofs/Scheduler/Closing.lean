import ProofStepper.Proofs.Debugger.Places
import ProofStepper.Proofs.Scheduler.Delivery

/-!
# Logs of documents that were closed

Closing a document does not touch the runs, and a run hands over its log under the uri
alone. So the document that was closed never gets the log, and none does while the uri is
closed. But if the uri is open again by then, its new document takes the log of the old
one's verification, and that may happen to every log that a run still has to offer.
-/
namespace ProofStepper

namespace Debugger
variable {capture : Heap.Capture} {d : Debugger} {uri : String} {bound place : Nat}
  {log : ProofLog}

/-- The document at a place takes in a log: its verification is completed with it. -/
def Takes (d e : Debugger) (place : Nat) (log : ProofLog) : Prop :=
  ∃ doc doc' : Document, d.documents[place]? = some doc ∧ e.documents[place]? = some doc' ∧
    doc'.task = doc.task.complete log

theorem Proper.takes_complete_iff (h : d.Proper) :
    d.Takes (d.complete uri log).state place log ↔ d.place? uri = some place := by
  rw [complete_state]
  constructor
  · rintro ⟨doc, doc', hdoc, hdoc', htask⟩
    by_contra hne
    rw [getElem?_updateUri_of_ne hne, hdoc] at hdoc'
    cases hdoc'
    have hcount : doc.task.completions = doc.task.completions + 1 :=
      congrArg Task.completions htask
    omega
  · intro hp
    have hlt := h.place_lt hp
    have hdoc := List.getElem?_eq_getElem hlt
    have htaken : ∀ change, (d.updateUri uri change).documents[place]? =
        some (change d.documents[place]) := by
      intro change
      simp only [updateUri, hp, getElem?_update, if_true, hdoc, Option.map_some]
    exact ⟨_, _, hdoc, htaken _, rfl⟩

/-- So many documents there are at least, and if the uri is open, then it was opened after
these. -/
structure OpenedAfter (d : Debugger) (uri : String) (bound : Nat) : Prop where
  le : bound ≤ d.documents.length
  beyond : ∀ place, d.place? uri = some place → bound ≤ place

theorem OpenedAfter.perform (h : d.OpenedAfter uri bound) (capture : Heap.Capture)
    (op : Operation) : (d.perform capture op).state.OpenedAfter uri bound := by
  refine ⟨h.le.trans (perform_frame capture d op).length, fun place hp => ?_⟩
  rw [place?_perform] at hp
  split at hp
  · cases hplace : d.place? uri with
    | none =>
      rw [hplace] at hp
      exact h.le.trans (Nat.le_of_eq (Option.some.inj hp))
    | some own =>
      rw [hplace] at hp
      exact h.beyond place (hplace.trans hp)
  · split at hp
    · cases hp
    · exact h.beyond place hp

theorem OpenedAfter.after (h : d.OpenedAfter uri bound) (capture : Heap.Capture)
    (history : List Operation) : (d.after capture history).OpenedAfter uri bound := by
  induction history generalizing d with
  | nil => exact h
  | cons op later ih => exact ih (h.perform capture op)

/-- A uri that was closed is open again only under a new place. -/
theorem Proper.openedAfter_closeFile (h : d.Proper) (hp : d.place? uri = some place) :
    (d.closeFile uri).state.OpenedAfter uri (place + 1) := by
  refine ⟨(h.place_lt hp).trans_le (perform_frame Heap.capture d (.closeFile uri)).length, ?_⟩
  intro later hlater
  rw [place?_closeFile, if_pos rfl] at hlater
  cases hlater

end Debugger

namespace Scheduler.State
variable {capture : Heap.Capture} {s t : State} {e : Event} {g place : Nat} {uri : String}
  {run : Verification} {log : ProofLog}

/-- Whatever the scheduler does to the debugger is a history of operations. -/
theorem exists_history_of_moves (hm : Moves capture s e t) :
    ∃ history, t.debugger = s.debugger.after capture history := by
  cases hm with
  | @reset i uri => exact ⟨[.start uri], (Debugger.perform_start_state capture _ uri).symm⟩
  | @deliver g run log => exact ⟨[.complete run.uri log], rfl⟩
  | operate op => exact ⟨[op], rfl⟩
  | _ => exact ⟨[], rfl⟩

theorem exists_history (h : Reaches capture s t) :
    ∃ history, t.debugger = s.debugger.after capture history := by
  induction h with
  | start => exact ⟨[], rfl⟩
  | step _ hstep ih =>
    obtain ⟨earlier, hearlier⟩ := ih
    obtain ⟨later, hlater⟩ := exists_history_of_moves (moves_of_step hstep)
    exact ⟨earlier ++ later, by simp only [hlater, hearlier, Debugger.after, List.foldl_append]⟩

/-- The document of a run, at its place, was closed while the run was under way. -/
inductive ClosedUnderWay (capture : Heap.Capture) (start : State) (uri : String) (g place : Nat) :
    State → Prop
  | close {s t : State} {run : Verification} {notices : List Notice} :
      Reaches capture start s → s.run? g = some run → run.uri = uri →
      run.phase.isOver = false → s.debugger.place? uri = some place →
      step capture s (.operate (.closeFile uri)) = some (t, notices) →
      ClosedUnderWay capture start uri g place t

/-- In some state that can still be reached the run hands over the log and a document takes
it in. -/
def Stores (capture : Heap.Capture) (s : State) (g : Nat) (log : ProofLog) : Prop :=
  ∃ u v run notices place, Reaches capture s u ∧ u.run? g = some run ∧
    run.phase = .cleared log ∧ step capture u (.deliver g) = some (v, notices) ∧
    u.debugger.Takes v.debugger place log

theorem step_deliver (hrun : s.run? g = some run) (hphase : run.phase = .cleared log) :
    step capture s (.deliver g) = some (deliver s run log) := by
  simp only [step_run hrun (.deliver g) rfl, stepRun, hphase]

/-- Every log that a run offers can be stored, since its document can be opened just before
the run hands it over. -/
theorem Sound.stores_iff (h : s.Sound) (hrun : s.run? g = some run)
    (hproper : s.debugger.Proper) (log : ProofLog) :
    s.Stores capture g log ↔ run.Offers log := by
  obtain ⟨hmem, hg⟩ := mem_of_run? hrun
  rw [← h.delivers_iff hmem, hg]
  constructor
  · rintro ⟨u, v, run', notices, place, hreach, hrun', hphase, hstep, -⟩
    refine ⟨u, v, run', notices, hreach, hrun', hphase, hstep, ?_⟩
    rw [step_deliver hrun' hphase] at hstep
    cases hstep
    rfl
  · rintro ⟨u, -, run', -, hreach, hrun', hphase, -, -⟩
    obtain ⟨history, hhistory⟩ := exists_history hreach
    have hu : u.debugger.Proper := hhistory ▸ hproper.after capture history
    let opened : State := { u with debugger := (u.debugger.openFile run'.uri).state }
    have hopen : step capture u (.operate (.openFile run'.uri)) = some (opened, []) := by
      simp only [step, Event.mover, Debugger.perform, opened]
      unfold Debugger.openFile
      split <;> rfl
    have hplace : opened.debugger.place? run'.uri =
        some ((u.debugger.place? run'.uri).getD u.debugger.documents.length) := by
      rw [Debugger.place?_openFile, if_pos rfl]
    exact ⟨opened, _, run', _, _, hreach.step hopen, hrun', hphase, step_deliver hrun' hphase,
      (hu.openFile run'.uri).takes_complete_iff.mpr hplace⟩

variable {debugger : Debugger} {ready : Bool}

/-- All that is known in a state after the closing: it is sound, the run is of the uri that
was closed, and that uri is open only under a new place. -/
theorem ClosedUnderWay.later (hproper : debugger.Proper)
    (hclosed : ClosedUnderWay capture { debugger, ready } uri g place s)
    (hlater : Reaches capture s t) (hrun : t.run? g = some run) :
    t.Sound ∧ t.debugger.Proper ∧ run.uri = uri ∧ t.debugger.OpenedAfter uri (place + 1) := by
  cases hclosed with
  | @close before _ run₀ _ hreach hrun₀ huri _ hp hstep =>
    obtain ⟨earlier, hearlier⟩ := exists_history hreach
    obtain ⟨later, hlaterDebugger⟩ := exists_history hlater
    have hbefore : before.debugger.Proper := hearlier ▸ hproper.after capture earlier
    have hdebugger : s.debugger = (before.debugger.closeFile uri).state := by
      cases hstep
      rfl
    have hall : Reaches capture before t := (Reaches.start.step hstep).trans hlater
    obtain ⟨hsound, hcontinues⟩ := (sound_of_reaches hreach).continues hall
    refine ⟨hsound, ?_, ?_, ?_⟩
    · rw [hlaterDebugger, hdebugger]
      exact (hbefore.closeFile uri).after capture later
    · obtain ⟨hmem₀, hg₀⟩ := mem_of_run? hrun₀
      obtain ⟨hmem, hg⟩ := mem_of_run? hrun
      obtain ⟨same, hsame, hentry⟩ := List.mem_map.mp
        (hcontinues.known _ (List.mem_map_of_mem hmem₀))
      have hgeneration : same.generation = run₀.generation := congrArg Prod.snd hentry
      obtain rfl := hsound.register.run_unique hmem hsame (by omega)
      exact (congrArg Prod.fst hentry).trans huri
    · rw [hlaterDebugger, hdebugger]
      exact (hbefore.openedAfter_closeFile hp).after capture later

/-- A run whose document was closed under it can have each log stored that it offers. When
it hands over the log, nothing changes if its uri is closed, and else the log is taken in by
the document that is open then, which is another one than the one that was closed. -/
theorem stored_after_close_iff (hproper : debugger.Proper)
    (hclosed : ClosedUnderWay capture { debugger, ready } uri g place s)
    (hlater : Reaches capture s t) (hrun : t.run? g = some run) (log : ProofLog) :
    (t.Stores capture g log ↔ run.Offers log) ∧
      ∀ u notices, run.phase = .cleared log → step capture t (.deliver g) = some (u, notices) →
        (t.debugger.place? uri = none → u.debugger = t.debugger) ∧
        ∀ p, t.debugger.Takes u.debugger p log ↔ t.debugger.place? uri = some p ∧ place < p := by
  obtain ⟨hsound, ht, rfl, hopened⟩ := hclosed.later hproper hlater hrun
  refine ⟨hsound.stores_iff hrun ht log, fun u notices hphase hstep => ?_⟩
  rw [step_deliver hrun hphase] at hstep
  cases hstep
  constructor
  · intro hnone
    change (t.debugger.complete run.uri log).state = t.debugger
    simp only [Debugger.complete_state, Debugger.updateUri, hnone]
  · intro p
    change t.debugger.Takes (t.debugger.complete run.uri log).state p log ↔ _
    rw [ht.takes_complete_iff]
    exact ⟨fun hp => ⟨hp, hopened.beyond p hp⟩, fun h => h.1⟩

/-- A document is verified, and the verifier works. -/
def verifyUntilCalling : List Event :=
  [.operate (.openFile "a.vpr"),
    .arrive (.verify "a.vpr" true), .consider 0, .acquire 0, .take 0, .conclude 0, .reset 0,
    .number 0, .spawn 0, .begin 0]

/-- The document is closed and opened again while the verifier works. The new document takes
in the log of a verification that was never asked for since it was opened. -/
theorem log_stored_after_reopening : ∃ s t u notices,
    ClosedUnderWay Heap.capture {} "a.vpr" 0 0 s ∧ Reaches Heap.capture s t ∧
    step Heap.capture t (.deliver 0) = some (u, notices) ∧
    t.debugger.place? "a.vpr" = some 1 ∧
    (t.debugger.task? "a.vpr").bind Task.run? = none ∧
    (u.debugger.task? "a.vpr").bind Task.run? = some (Run.ofRecords lateLog.steps) ∧
    t.Stores Heap.capture 0 lateLog ∧ t.debugger.Takes u.debugger 1 lateLog := by
  have hplayed : ∃ s₀ s t u run₀ run notices notices',
      play Heap.capture {} verifyUntilCalling = some s₀ ∧ s₀.run? 0 = some run₀ ∧
      run₀.uri = "a.vpr" ∧ run₀.phase.isOver = false ∧ s₀.debugger.place? "a.vpr" = some 0 ∧
      step Heap.capture s₀ (.operate (.closeFile "a.vpr")) = some (s, notices) ∧
      play Heap.capture s [.operate (.openFile "a.vpr"), .yield 0 (.ok lateLog),
        .unregister 0, .check 0] = some t ∧
      t.run? 0 = some run ∧ run.phase = .cleared lateLog ∧
      step Heap.capture t (.deliver 0) = some (u, notices') ∧
      t.debugger.place? "a.vpr" = some 1 ∧
      (t.debugger.task? "a.vpr").bind Task.run? = none ∧
      (u.debugger.task? "a.vpr").bind Task.run? = some (Run.ofRecords lateLog.steps) :=
    ⟨_, _, _, _, _, _, _, _, rfl, rfl, rfl, rfl, rfl, rfl, rfl, rfl, rfl, rfl, rfl, rfl, rfl⟩
  obtain ⟨s₀, s, t, u, run₀, run, notices, notices', hplay, hrun₀, huri, hover, hp, hclose,
    hlater, hrun, hphase, hdeliver, hplace, hnone, hstored⟩ := hplayed
  have hclosed : ClosedUnderWay Heap.capture {} "a.vpr" 0 0 s :=
    .close (Reaches.start.play hplay) hrun₀ huri hover hp hclose
  have hreach : Reaches Heap.capture s t := Reaches.start.play hlater
  obtain ⟨hstores, htakes⟩ := stored_after_close_iff (Debugger.proper_initial {} {}) hclosed
    hreach hrun lateLog
  exact ⟨s, t, u, notices', hclosed, hreach, hdeliver, hplace, hnone, hstored,
    hstores.mpr (by simp [Verification.Offers, hphase]),
    ((htakes u notices' hphase hdeliver).2 1).mpr ⟨hplace, Nat.zero_lt_one⟩⟩

end Scheduler.State

end ProofStepper
