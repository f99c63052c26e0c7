import ProofStepper.Proofs.Debugger.HeapRequests
import ProofStepper.Proofs.Debugger.Isolation

/-!
# The two resets of all documents

Both resets leave every open document without snapshots and with its verification. They
differ in the slot to be filled next: to stop debugging starts at the first slot again, to
drop the snapshots goes on where it was. Two sessions that hold the same snapshots, each
slot the same number of places further, stay so under the same pushes and are seen alike.
So from then on it does not matter for what is seen which of the resets it was.
-/
namespace ProofStepper

namespace Heap
variable {turn : Nat} {s t : Session}

def Panel.turned (turn : Nat) (p : Panel) : Panel := { p with slot := (p.slot + turn) % slotCount }

/-- The same view with each panel some slots further, counted around. -/
def View.turned (turn : Nat) : View → View
  | .empty => .empty
  | .single p => .single (p.turned turn)
  | .comparison newer older => .comparison (newer.turned turn) (older.turned turn)

/-- Two sessions with the same snapshots, in the second one each some slots further. -/
structure Session.Turned (turn : Nat) (s t : Session) : Prop where
  next_lt : s.next < slotCount
  next : t.next = (s.next + turn) % slotCount
  slots : ∀ slot < slotCount, t.store.get? ((slot + turn) % slotCount) = s.store.get? slot

namespace Session

theorem turned_reset (h : s.next < slotCount) : Turned s.next s.reset s.dropSnapshots := by
  refine ⟨Nat.zero_lt_two, ?_, fun slot _ => ?_⟩
  · change s.next = (0 + s.next) % slotCount
    rw [Nat.zero_add, Nat.mod_eq_of_lt h]
  · simp only [reset, dropSnapshots, Store.get?_empty]

/-- A snapshot finds its slot in both sessions, and the slots stay turned. -/
theorem Turned.push (h : s.Turned turn t) (snapshot : Snapshot) :
    ∃ s' t', s.push snapshot = .ok s' ∧ t.push snapshot = .ok t' ∧ s'.Turned turn t' := by
  have hlt : t.next < slotCount := h.next ▸ Nat.mod_lt _ Nat.zero_lt_two
  obtain ⟨s', hs⟩ := push_isOk h.next_lt snapshot
  obtain ⟨t', ht⟩ := push_isOk hlt snapshot
  have hps := pushed_of_push hs
  have hpt := pushed_of_push ht
  refine ⟨s', t', hs, ht, ?_, ?_, fun slot hslot => ?_⟩
  · rw [hps.next]
    exact Nat.mod_lt _ Nat.zero_lt_two
  · rw [hpt.next, hps.next, h.next, slotCount]
    omega
  · have hnext : s.next < 2 := h.next_lt
    have hslot2 : slot < 2 := hslot
    have hsame : (slot + turn) % slotCount = t.next ↔ slot = s.next := by
      rw [h.next, slotCount]
      omega
    rw [hpt.slots, hps.slots, h.slots slot hslot]
    exact if_congr hsame rfl rfl

theorem Turned.view_eq (h : s.Turned turn t) : t.view = s.view.turned turn := by
  have hlt : s.next < 2 := h.next_lt
  have hnext : s.next % slotCount = s.next := Nat.mod_eq_of_lt hlt
  have holder : t.next % slotCount = (s.next + turn) % slotCount := by
    rw [h.next, Nat.mod_mod]
  have hnewer : 1 - (s.next + turn) % slotCount = (1 - s.next + turn) % slotCount := by
    rw [slotCount]
    omega
  have hother : 1 - s.next < slotCount := by
    rw [slotCount]
    omega
  simp only [Session.view, Store.view, hnext, holder, hnewer, h.slots _ h.next_lt,
    h.slots _ hother]
  cases s.store.get? (1 - s.next) <;> cases s.store.get? s.next <;> rfl

theorem view_of_empty (h : s.store = {}) : s.view = .empty := by
  simp only [Session.view, Store.view, h, Store.get?_empty]

end Session

end Heap

namespace Document
variable {turn : Nat} {doc doc' : Document}

/-- A document that lost its snapshots, whose verification stays as it was. -/
structure Emptied (doc doc' : Document) : Prop where
  view : doc'.session.view = .empty
  revision : doc'.session.revision = doc.session.revision + 1
  task : doc'.task = { doc.task with shown := doc'.task.shown }

/-- A document of which nothing is shown any more. -/
structure Stopped (doc doc' : Document) : Prop extends Emptied doc doc' where
  next : doc'.session.next = 0
  info : doc'.session.info = ""
  shown : doc'.task.shown = none

/-- A document that lost its snapshots alone. -/
structure Dropped (doc doc' : Document) : Prop extends Emptied doc doc' where
  next : doc'.session.next = doc.session.next
  info : doc'.session.info = doc.session.info
  shown : doc'.task.shown = doc.task.shown

theorem stopped (doc : Document) : doc.Stopped ⟨doc.task.clearShown, doc.session.reset⟩ :=
  ⟨⟨Heap.Session.view_of_empty rfl, rfl, rfl⟩, rfl, rfl, rfl⟩

theorem dropped (doc : Document) :
    doc.Dropped { doc with session := doc.session.dropSnapshots } :=
  ⟨⟨Heap.Session.view_of_empty rfl, rfl, rfl⟩, rfl, rfl, rfl⟩

/-- Two documents with the same run, whose sessions differ in their slots. -/
structure Turned (turn : Nat) (doc doc' : Document) : Prop where
  run : doc'.task.run? = doc.task.run?
  session : doc.session.Turned turn doc'.session

theorem Turned.taking_eq (h : doc.Turned turn doc') (capture : Heap.Capture) (uri : String)
    (number : Nat) (image : Bool) :
    doc'.taking capture uri number image = doc.taking capture uri number image := by
  simp only [taking, h.run]

end Document

namespace Debugger
variable {d e : Debugger} {capture : Heap.Capture} {uri : String} {turn : Nat}

theorem Reachable.proper (h : d.Reachable) : d.Proper := by
  induction h with
  | initial settings disk => exact proper_initial settings disk
  | perform capture op _ ih => exact ih.perform capture op
  | disturbed disk _ ih => exact ⟨ih.apart, ih.inside⟩

/-- Every open document was changed in one way, shows nothing, and all else is as it was. -/
structure Resets (R : Document → Document → Prop) (d d' : Debugger) : Prop where
  documents : ∀ uri, Option.Rel R (d.document? uri) (d'.document? uri)
  views : ∀ uri, d'.heapView uri = .empty
  registry : d'.registry = d.registry
  settings : d'.settings = d.settings
  disk : d'.disk = d.disk

theorem Proper.resets (h : d.Proper) {R : Document → Document → Prop}
    {change : Document → Document} (hR : ∀ doc, R doc (change doc))
    (hview : ∀ doc, (change doc).session.view = .empty) : d.Resets R (d.updateAll change) := by
  obtain ⟨documents, hall, -⟩ := d.updateAll_frame change
  refine ⟨fun uri => ?_, fun uri => ?_, ?_, ?_, ?_⟩
  · rw [h.document?_updateAll]
    cases d.document? uri with
    | none => exact .none
    | some doc => exact .some (hR doc)
  · rw [heapView, h.document?_updateAll]
    cases d.document? uri with
    | none => rfl
    | some doc => exact hview doc
  all_goals rw [hall]

/-- A uri with turned documents, or with none, in two states. -/
def Turned (turn : Nat) (uri : String) (d e : Debugger) : Prop :=
  Option.Rel (Document.Turned turn) (d.document? uri) (e.document? uri)

theorem Turned.heapView_eq (h : d.Turned turn uri e) :
    e.heapView uri = (d.heapView uri).turned turn := by
  rw [Turned] at h
  rw [heapView, heapView]
  generalize d.document? uri = doc? at h ⊢
  generalize e.document? uri = doc?' at h ⊢
  cases h with
  | none => rfl
  | some hdoc => exact hdoc.session.view_eq

/-- A heap request for the uri, whose image is written in both states. -/
theorem Turned.showHeap_self (h : d.Turned turn uri e) (hd : d.Proper) (he : e.Proper)
    {number : Nat} {image : Bool} (hw : d.WritesImage capture (.showHeap uri number image))
    (hw' : e.WritesImage capture (.showHeap uri number image)) :
    (d.showHeap capture uri number image).state.Turned turn uri
      (e.showHeap capture uri number image).state := by
  have hdoc := congrArg (·.2.2) (hd.outcomeAt_showHeap hw)
  have hdoc' := congrArg (·.2.2) (he.outcomeAt_showHeap hw')
  simp only [outcomeAt] at hdoc hdoc'
  rw [Turned, hdoc, hdoc']
  rw [Turned] at h
  generalize d.document? uri = doc? at h ⊢
  generalize e.document? uri = doc?' at h ⊢
  cases h with
  | none => exact .none
  | @some doc doc' hturned =>
    simp only [Document.showing, hturned.taking_eq]
    cases doc.taking capture uri number image with
    | error f => exact .some hturned
    | ok snapshot =>
      obtain ⟨s, t, hs, ht, hst⟩ := hturned.session.push snapshot
      simp only [hs, ht]
      exact .some ⟨hturned.run, hst⟩

theorem Turned.perform_showHeap (h : d.Turned turn uri e) (hd : d.Proper) (he : e.Proper)
    {other : String} {number : Nat} {image : Bool}
    (hw : d.WritesImage capture (.showHeap other number image))
    (hw' : e.WritesImage capture (.showHeap other number image)) :
    (d.perform capture (.showHeap other number image)).state.Turned turn uri
      (e.perform capture (.showHeap other number image)).state := by
  by_cases hother : other = uri
  · subst hother
    exact h.showHeap_self hd he hw hw'
  · have hnot : ¬ (Operation.showHeap other number image).Concerns uri := fun hop =>
      hother (hop.named rfl).symm
    rw [Turned, (hd.turns_perform capture _ uri).eq_of_not_concerns hnot,
      (he.turns_perform capture _ uri).eq_of_not_concerns hnot]
    exact h

/-- Requests for heaps, each with its uri, the number of a state and whether it is to have
an image. -/
def heapRequests (calls : List (String × Nat × Bool)) : List Operation :=
  calls.map fun (uri, number, image) => .showHeap uri number image

theorem Turned.after (h : d.Turned turn uri e) (hd : d.Proper) (he : e.Proper)
    {calls : List (String × Nat × Bool)} (hw : d.WritesImages capture (heapRequests calls))
    (hw' : e.WritesImages capture (heapRequests calls)) :
    (d.after capture (heapRequests calls)).Turned turn uri
      (e.after capture (heapRequests calls)) := by
  induction calls generalizing d e with
  | nil => exact h
  | cons call later ih =>
    exact ih (h.perform_showHeap hd he hw.1 hw'.1) (hd.perform capture _) (he.perform capture _)
      hw.2 hw'.2

/-- The slot that a document fills next. -/
def parity (d : Debugger) (uri : String) : Nat := (d.document? uri).elim 0 (·.session.next)

theorem Reachable.turned_resets (h : d.Reachable) (uri : String) :
    d.stopDebugging.Turned (d.parity uri) uri d.resetState := by
  rw [Turned, stopDebugging, resetState, h.proper.document?_updateAll,
    h.proper.document?_updateAll, parity]
  cases hdoc : d.document? uri with
  | none => exact .none
  | some doc =>
    obtain ⟨place, -, hplace⟩ := Option.bind_eq_some_iff.mp hdoc
    exact .some ⟨rfl, Heap.Session.turned_reset (h.ready place doc hplace).next⟩

/-- What the two resets do in every state that a debugger reaches, and that what is seen of
the heap from then on is the same after both, apart from the slots: a document that had its
second slot next when the snapshots were dropped has its two slots exchanged. -/
theorem Reachable.resets_exactly (h : d.Reachable) :
    d.Resets Document.Stopped d.stopDebugging ∧ d.Resets Document.Dropped d.resetState ∧
    ∀ capture calls, d.stopDebugging.WritesImages capture (heapRequests calls) →
      d.resetState.WritesImages capture (heapRequests calls) →
      ∀ uri, (d.resetState.after capture (heapRequests calls)).heapView uri =
        ((d.stopDebugging.after capture (heapRequests calls)).heapView uri).turned
          (d.parity uri) := by
  refine ⟨h.proper.resets Document.stopped fun doc => doc.stopped.view,
    h.proper.resets Document.dropped fun doc => doc.dropped.view,
    fun capture calls hstop hreset uri => ?_⟩
  have hstopped : d.stopDebugging.Proper := h.proper.perform capture .stopDebugging
  have hdropped : d.resetState.Proper := h.proper.perform capture .resetState
  exact ((h.turned_resets uri).after hstopped hdropped hstop hreset).heapView_eq

/-- Two documents of which one was shown once and has its second slot next. -/
def halfShown : Debugger :=
  after Heap.capture { settings := { heapImageDir := "heap" } }
    [.openFile "a.vpr", .openFile "b.vpr",
      .complete "a.vpr" { steps := [{ isShown := true, heap := ["acc(x.f)"] },
        { isShown := true }] },
      .complete "b.vpr" { steps := [{ isShown := true }] },
      .trace "a.vpr" 1, .showHeap "a.vpr" 0 true]

/-- Both slots of the first document and one of the second. One state does not exist. -/
def laterCalls : List (String × Nat × Bool) :=
  [("a.vpr", 0, true), ("b.vpr", 0, false), ("a.vpr", 7, true), ("a.vpr", 1, true)]

theorem resets_halfShown :
    halfShown.Reachable ∧ halfShown.parity "a.vpr" = 1 ∧ halfShown.parity "b.vpr" = 0 ∧
    halfShown.stopDebugging.WritesImages Heap.capture (heapRequests laterCalls) ∧
    halfShown.resetState.WritesImages Heap.capture (heapRequests laterCalls) ∧
    halfShown.Resets Document.Stopped halfShown.stopDebugging ∧
    ∀ uri, (halfShown.resetState.after Heap.capture (heapRequests laterCalls)).heapView uri =
      ((halfShown.stopDebugging.after Heap.capture (heapRequests laterCalls)).heapView uri).turned
        (halfShown.parity uri) := by
  have hreachable : halfShown.Reachable :=
    (Reachable.initial { heapImageDir := "heap" } {}).after Heap.capture _
  obtain ⟨hstopped, -, hviews⟩ := hreachable.resets_exactly
  have hstop : halfShown.stopDebugging.WritesImages Heap.capture (heapRequests laterCalls) := by
    decide
  have hreset : halfShown.resetState.WritesImages Heap.capture (heapRequests laterCalls) := by
    decide
  exact ⟨hreachable, by decide, by decide, hstop, hreset, hstopped, hviews _ _ hstop hreset⟩

end Debugger

end ProofStepper
