import ProofStepper.Proofs.Debugger.Registry
import ProofStepper.Proofs.Heap.ImageFile
import ProofStepper.Proofs.Heap.Session
import ProofStepper.Proofs.Numbering

/-!
# Heap requests are served fully or not at all

A heap request may fail because of the document, the run, the number, the capture or the
image, in this order, and only afterwards is a session changed. The push itself cannot
fail: in every state that a debugger reaches, each session has a slot to fill, and each
run is that of a log, which has a step for every number. So whether a request is served
can be told from the state before it, and a refusal leaves every document as it was.
-/
namespace ProofStepper

/-- What every document has: a slot to be filled next, and no run but that of a log. -/
structure Document.Ready (doc : Document) : Prop where
  next : doc.session.next < Heap.slotCount
  run : ∀ run, doc.task.run? = some run → ∃ records, run = Run.ofRecords records

namespace Document
variable {capture : Heap.Capture} {doc doc' : Document} {op : Operation}

theorem ready_opened (uri : String) : Ready { task := { uri } } := by
  refine ⟨Nat.zero_lt_two, fun run hrun => ?_⟩
  cases hrun

/-- A document that holds the run that it held is as ready as its session. -/
theorem Ready.congr (h : doc.Ready) (hstored : doc'.task.stored = doc.task.stored)
    (hnext : doc'.session.next < Heap.slotCount) : doc'.Ready := by
  refine ⟨hnext, fun run hrun => h.run run ?_⟩
  rwa [Task.run?, hstored] at hrun

theorem Ready.effect (h : doc.Ready) (he : doc.Effect capture op doc') : doc'.Ready := by
  cases he with
  | close => exact h.congr rfl h.next
  | start =>
    refine ⟨Nat.zero_lt_two, fun run hrun => ?_⟩
    cases hrun
  | @complete _ log =>
    refine ⟨Nat.zero_lt_two, fun run hrun => ⟨log.steps, ?_⟩⟩
    exact (Option.some.inj hrun).symm
  | trace _ style => exact h.congr (doc.task.trace_stored _ style) h.next
  | «show» _ _ _ hpush =>
    refine h.congr rfl ?_
    rw [(Heap.Session.pushed_of_push hpush).next]
    exact Nat.mod_lt _ Nat.zero_lt_two
  | resetDiagnostics => exact h.congr rfl h.next
  | resetState => exact h.congr rfl h.next
  | stop => exact h.congr rfl Nat.zero_lt_two

/-- A run that a document holds has a step for every number below the number of its shown
states, and for no other. -/
theorem Ready.step_isOk_iff (h : doc.Ready) {run : Run} (hrun : doc.task.run? = some run)
    (number : Nat) : (∃ step, run.step number = .ok step) ↔ number < run.shown.length := by
  obtain ⟨records, rfl⟩ := h.run run hrun
  refine ⟨?_, Run.step_of_lt⟩
  rintro ⟨step, hstep⟩
  by_contra hlt
  rw [Run.shown_length, Nat.not_lt] at hlt
  rw [Run.step_of_ge hlt] at hstep
  cases hstep

end Document

namespace Debugger
variable {d : Debugger} {capture : Heap.Capture} {uri : String} {number : Nat} {image : Bool}

/-- The states of a debugger that began without documents. Other programs may change the
disk between two operations, and the way to capture a heap need not stay the same. -/
inductive Reachable : Debugger → Prop
  | initial (settings : Settings) (disk : Disk) : Reachable { settings, disk }
  | perform {d : Debugger} (capture : Heap.Capture) (op : Operation) :
      Reachable d → Reachable (d.perform capture op).state
  | disturbed {d : Debugger} (disk : Disk) : Reachable d → Reachable { d with disk }

theorem Reachable.ready (h : d.Reachable) : d.Each fun _ doc => doc.Ready := by
  induction h with
  | initial settings disk =>
    intro place doc hdoc
    simp at hdoc
  | perform capture op _ ih =>
    exact ih.perform (fun uri _ => Document.ready_opened uri) fun _ _ _ he hdoc => hdoc.effect he
  | disturbed disk _ ih => exact ih

theorem Reachable.after (h : d.Reachable) (capture : Heap.Capture) (history : List Operation) :
    (d.after capture history).Reachable := by
  induction history generalizing d with
  | nil => exact h
  | cons op later ih => exact ih (h.perform capture op)

/-- A heap request that can be served: the document is open and its run has the state that
is asked for, the snapshot of the state can be captured and the image of the snapshot, if
it has one, can be written. -/
structure Grants (d : Debugger) (capture : Heap.Capture) (uri : String) (number : Nat)
    (image : Bool) (place : Nat) (doc : Document) (snapshot : Snapshot) : Prop where
  isOpen : d.place? uri = some place ∧ d.documents[place]? = some doc
  captured : ∃ run step, doc.task.run? = some run ∧ number < run.shown.length ∧
    run.step number = .ok step ∧ capture step image = .ok snapshot
  written : ∀ i ∈ snapshot.image,
    (Heap.writeImage d.disk d.settings.heapImageDir doc.session.next i).2.isOk = true

/-- A heap request that was served: the snapshot is in the slot of its document that was
to be filled next, the other slot is next, the revision has grown by one, the image is on
the disk, and all else is as it was. -/
structure Served (d : Debugger) (place : Nat) (doc : Document) (snapshot : Snapshot)
    (later : Debugger) : Prop where
  document : ∃ session, later.documents[place]? = some { doc with session } ∧
    doc.session.Pushed snapshot session ∧ doc.session.next + session.next = 1
  others : ∀ other, other ≠ place → later.documents[other]? = d.documents[other]?
  registry : later.registry = d.registry
  settings : later.settings = d.settings
  file : ∀ i ∈ snapshot.image,
    Heap.FileHolds later.disk d.settings.heapImageDir doc.session.next (some i)

/-- What is known of a heap request without making it. -/
structure AllOrNothing (d : Debugger) (capture : Heap.Capture) (uri : String) (number : Nat)
    (image : Bool) : Prop where
  /-- The number of the shown states decides whether a run has a state with a number. -/
  resolves : ∀ (place : Nat) (doc : Document) (run : Run), d.documents[place]? = some doc →
    doc.task.run? = some run →
    ((∃ step, run.step number = .ok step) ↔ number < run.shown.length)
  answer_iff : (d.showHeap capture uri number image).answer = true ↔
    ∃ place doc snapshot, d.Grants capture uri number image place doc snapshot
  served : (d.showHeap capture uri number image).answer = true →
    ∃ place doc snapshot, d.Grants capture uri number image place doc snapshot ∧
      d.Served place doc snapshot (d.showHeap capture uri number image).state
  refused : (d.showHeap capture uri number image).answer = false →
    ∃ disk, (d.showHeap capture uri number image).state = { d with disk }

/-- If there is a slot to fill, storing a snapshot fails exactly if its image cannot be
written. -/
theorem storeHeap_splits {ticket : HeapTicket} {doc : Document}
    (hdoc : d.documents[ticket.place]? = some doc) (hnext : doc.session.next < Heap.slotCount) :
    (∃ disk e, d.storeHeap ticket = ({ d with disk }, .error e) ∧ ∃ i ∈ ticket.snapshot.image,
      (Heap.writeImage d.disk ticket.imageDir doc.session.next i).2.isOk = false) ∨
    ∃ session disk, doc.session.push ticket.snapshot = .ok session ∧
      d.storeHeap ticket =
        ({ d with disk }.update ticket.place fun doc => { doc with session }, .ok ()) ∧
      ∀ i ∈ ticket.snapshot.image,
        Heap.writeImage d.disk ticket.imageDir doc.session.next i = (disk, .ok ()) := by
  obtain ⟨session, hpush⟩ := Heap.Session.push_isOk hnext ticket.snapshot
  have hpushed : ∀ disk, pushSnapshot { d with disk } ticket doc.session =
      ({ d with disk }.update ticket.place fun doc => { doc with session }, .ok ()) := by
    intro disk
    simp only [pushSnapshot, hpush]
  rcases d.storeHeap_cases hdoc with
    ⟨hnone, hs⟩ | ⟨i, disk, hsome, ⟨e, hwrite, hs⟩ | ⟨hwrite, hs⟩⟩
  · refine .inr ⟨session, d.disk, hpush, hs.trans (hpushed d.disk), fun i hi => ?_⟩
    rw [hnone] at hi
    cases hi
  · refine .inl ⟨disk, e, hs, i, hsome, ?_⟩
    rw [hwrite]
    rfl
  · refine .inr ⟨session, disk, hpush, hs.trans (hpushed disk), fun j hj => ?_⟩
    rw [hsome] at hj
    cases hj
    exact hwrite

theorem served_of_pushed {place : Nat} {doc : Document} {snapshot : Snapshot}
    {session : Heap.Session} {disk : Disk} (hdoc : d.documents[place]? = some doc)
    (hnext : doc.session.next < Heap.slotCount) (hpush : doc.session.push snapshot = .ok session)
    (hfile : ∀ i ∈ snapshot.image, Heap.writeImage d.disk d.settings.heapImageDir
      doc.session.next i = (disk, .ok ())) :
    d.Served place doc snapshot ({ d with disk }.update place fun doc => { doc with session }) := by
  have hpushed := Heap.Session.pushed_of_push hpush
  refine ⟨⟨session, ?_, hpushed, ?_⟩, fun other hne => ?_, rfl, rfl, fun i hi => ?_⟩
  · rw [getElem?_update, if_pos rfl]
    exact congrArg _ hdoc
  · have hflip : session.next = (doc.session.next + 1) % 2 := hpushed.next
    have hlt : doc.session.next < 2 := hnext
    omega
  · rw [getElem?_update, if_neg hne]
  · exact Heap.fileHolds_of_writeImage hnext (hfile i hi)

theorem Grants.takeHeap {place : Nat} {doc : Document} {snapshot : Snapshot}
    (h : d.Grants capture uri number image place doc snapshot) :
    d.takeHeap capture uri number image = .ok ⟨place, snapshot, d.settings.heapImageDir⟩ := by
  obtain ⟨run, step, hrun, -, hstep, hsnapshot⟩ := h.captured
  exact takeHeap_eq_ok_iff.mpr
    ⟨doc, run, step, h.isOpen.1, h.isOpen.2, hrun, hstep, hsnapshot, rfl⟩

theorem showHeap_of_refused {e : Failure} (h : d.takeHeap capture uri number image = .error e) :
    (d.showHeap capture uri number image).answer = false ∧
      (d.showHeap capture uri number image).state = d := by
  simp only [showHeap, h, and_self]

theorem showHeap_of_ticket {ticket : HeapTicket}
    (h : d.takeHeap capture uri number image = .ok ticket) :
    (d.showHeap capture uri number image).answer = (d.storeHeap ticket).2.isOk ∧
      (d.showHeap capture uri number image).state = (d.storeHeap ticket).1 := by
  simp only [showHeap, h]
  generalize d.storeHeap ticket = result
  obtain ⟨later, e | ⟨⟩⟩ := result <;> exact ⟨rfl, rfl⟩

/-- A request is refused and changes no document, and then it cannot be granted, or it is
granted and served. -/
theorem showHeap_splits (hready : d.Each fun _ doc => doc.Ready) (capture : Heap.Capture)
    (uri : String) (number : Nat) (image : Bool) :
    ((d.showHeap capture uri number image).answer = false ∧
      (∃ disk, (d.showHeap capture uri number image).state = { d with disk }) ∧
      ¬ ∃ place doc snapshot, d.Grants capture uri number image place doc snapshot) ∨
    ((d.showHeap capture uri number image).answer = true ∧
      ∃ place doc snapshot, d.Grants capture uri number image place doc snapshot ∧
        d.Served place doc snapshot (d.showHeap capture uri number image).state) := by
  cases hticket : d.takeHeap capture uri number image with
  | error e =>
    obtain ⟨hanswer, hstate⟩ := showHeap_of_refused hticket
    refine .inl ⟨hanswer, ⟨d.disk, hstate⟩, ?_⟩
    rintro ⟨place, doc, snapshot, h⟩
    rw [h.takeHeap] at hticket
    cases hticket
  | ok ticket =>
    obtain ⟨doc, run, step, hplace, hdoc, hrun, hstep, hsnapshot, hdir⟩ :=
      takeHeap_eq_ok_iff.mp hticket
    have hnext := (hready _ doc hdoc).next
    obtain ⟨hanswer, hstate⟩ := showHeap_of_ticket hticket
    rw [hanswer, hstate]
    rcases storeHeap_splits hdoc hnext with
      ⟨disk, e, hs, i, hi, hfails⟩ | ⟨session, disk, hpush, hs, hwrite⟩
    · rw [hs]
      refine .inl ⟨rfl, ⟨disk, rfl⟩, ?_⟩
      rintro ⟨place, doc', snapshot, h⟩
      obtain rfl : HeapTicket.mk place snapshot d.settings.heapImageDir = ticket :=
        Except.ok.inj (h.takeHeap.symm.trans hticket)
      obtain rfl : doc' = doc := Option.some.inj (h.isOpen.2.symm.trans hdoc)
      rw [h.written i hi] at hfails
      cases hfails
    · rw [hs]
      rw [hdir] at hwrite
      have hlt := ((hready _ doc hdoc).step_isOk_iff hrun number).mp ⟨step, hstep⟩
      refine .inr ⟨rfl, ticket.place, doc, ticket.snapshot, ?_,
        served_of_pushed hdoc hnext hpush hwrite⟩
      refine ⟨⟨hplace, hdoc⟩, ⟨run, step, hrun, hlt, hstep, hsnapshot⟩, fun i hi => ?_⟩
      rw [hwrite i hi]
      rfl

/-- In every state that a debugger reaches, a heap request is served exactly if the document,
the run, the number, the capture and the image allow it. Then it changes one session and
the file of the image, and otherwise no document. -/
theorem Reachable.showHeap_allOrNothing (h : d.Reachable) (capture : Heap.Capture)
    (uri : String) (number : Nat) (image : Bool) :
    d.AllOrNothing capture uri number image where
  resolves place doc _ hdoc hrun := (h.ready place doc hdoc).step_isOk_iff hrun number
  answer_iff := by
    rcases showHeap_splits h.ready capture uri number image with
      ⟨hanswer, -, hnot⟩ | ⟨hanswer, place, doc, snapshot, hgrants, -⟩
    · rw [hanswer]
      exact iff_of_false Bool.false_ne_true hnot
    · exact iff_of_true hanswer ⟨place, doc, snapshot, hgrants⟩
  served hanswer := by
    rcases showHeap_splits h.ready capture uri number image with ⟨hno, -⟩ | ⟨-, hserved⟩
    · rw [hno] at hanswer
      cases hanswer
    · exact hserved
  refused hanswer := by
    rcases showHeap_splits h.ready capture uri number image with ⟨-, hstate, -⟩ | ⟨hyes, -⟩
    · exact hstate
    · rw [hyes] at hanswer
      cases hanswer

/-- After one state of a document was shown with its image, a file has come in the place of
the directory of images. -/
def obstructed : Debugger :=
  { after Heap.capture { settings := { heapImageDir := "heap" } }
      [.openFile "a.vpr", .complete "a.vpr" { steps := [Record.shown (.new 0 none)] },
        .showHeap "a.vpr" 0 true] with
    disk := { nodes := [(["heap"], .file (.text ""))] } }

/-- Then another image cannot be written, but a snapshot without one can be shown. -/
theorem showHeap_allOrNothing_obstructed :
    obstructed.Reachable ∧ ∀ image, obstructed.AllOrNothing Heap.capture "a.vpr" 0 image ∧
      (obstructed.showHeap Heap.capture "a.vpr" 0 image).answer = !image := by
  have hreachable : obstructed.Reachable :=
    ((Reachable.initial { heapImageDir := "heap" } {}).after Heap.capture _).disturbed _
  refine ⟨hreachable, fun image => ⟨?_, ?_⟩⟩
  · exact hreachable.showHeap_allOrNothing Heap.capture "a.vpr" 0 image
  · cases image <;> decide

end Debugger

end ProofStepper
