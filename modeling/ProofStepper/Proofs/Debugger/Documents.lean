import ProofStepper.Debugger.Operation

/-!
# What an operation does to the documents

Each document is changed in one of a few ways, and which ones come into question depends
on the operation. A property of every document is therefore kept by an operation, and
then by a history, once each of its ways keeps it. Documents that were closed are meant
as well: they keep their place.
-/
namespace ProofStepper

/-- The ways in which an operation changes a document. -/
inductive Document.Effect (capture : Heap.Capture) : Operation → Document → Document → Prop
  | close {uri : String} (doc : Document) :
      Effect capture (.closeFile uri) doc { doc with task := doc.task.resetDiagnostics }
  | start {uri : String} (doc : Document) :
      Effect capture (.start uri) doc ⟨doc.task.invalidate, doc.session.reset⟩
  | complete {uri : String} {log : ProofLog} (doc : Document) :
      Effect capture (.complete uri log) doc
        ⟨doc.task.complete log, doc.session.reset.setInfo (Debugger.logSummary log)⟩
  | trace {uri : String} {number : Nat} (doc : Document) (style : TraceStyle) :
      Effect capture (.trace uri number) doc
        { doc with task := (doc.task.trace number style).state }
  | show {uri : String} {number : Nat} {image : Bool} {doc : Document} {run : Run} {step : Step}
      {snapshot : Snapshot} {session : Heap.Session} : doc.task.run? = some run →
      run.step number = .ok step → capture step image = .ok snapshot →
      doc.session.push snapshot = .ok session →
      Effect capture (.showHeap uri number image) doc { doc with session }
  | resetDiagnostics {uri : String} (doc : Document) :
      Effect capture (.resetDiagnostics uri) doc { doc with task := doc.task.resetDiagnostics }
  | resetState (doc : Document) :
      Effect capture .resetState doc { doc with session := doc.session.dropSnapshots }
  | stop (doc : Document) :
      Effect capture .stopDebugging doc ⟨doc.task.clearShown, doc.session.reset⟩

namespace Debugger
variable {capture : Heap.Capture} {d : Debugger} {P : Nat → Document → Prop}

/-- A property of every document, open or not, and its place. -/
def Each (d : Debugger) (P : Nat → Document → Prop) : Prop :=
  ∀ place doc, d.documents[place]? = some doc → P place doc

theorem getElem?_update (d : Debugger) (place : Nat) (change : Document → Document) (other : Nat) :
    (d.update place change).documents[other]? =
      if other = place then d.documents[other]?.map change else d.documents[other]? := by
  simp only [update, List.getElem?_modify]
  by_cases h : place = other
  · simp [h]
  · simp [h, Ne.symm h]

/-- An update need only be looked at where it takes place. -/
theorem Each.update (h : d.Each P) {place : Nat} {change : Document → Document}
    (hc : ∀ doc, d.documents[place]? = some doc → P place (change doc)) :
    (d.update place change).Each P := by
  intro other doc hdoc
  rw [getElem?_update] at hdoc
  split at hdoc
  · rename_i he
    subst he
    obtain ⟨old, hold, rfl⟩ := Option.map_eq_some_iff.mp hdoc
    exact hc old hold
  · exact h other doc hdoc

theorem Each.updateUri (h : d.Each P) {uri : String} {change : Document → Document}
    (hc : ∀ place doc, P place doc → P place (change doc)) : (d.updateUri uri change).Each P := by
  unfold Debugger.updateUri
  split
  · exact h
  · exact h.update fun doc hdoc => hc _ doc (h _ doc hdoc)

theorem updateAll_eq (d : Debugger) (change : Document → Document) :
    d.updateAll change = d.registry.foldl (fun d e => d.update e.2 change) d := rfl

theorem Each.updateAll (h : d.Each P) {change : Document → Document}
    (hc : ∀ place doc, P place doc → P place (change doc)) : (d.updateAll change).Each P := by
  rw [updateAll_eq]
  generalize d.registry = entries
  induction entries generalizing d with
  | nil => exact h
  | cons e rest ih => exact ih (h.update fun doc hdoc => hc _ doc (h _ doc hdoc))

theorem Each.openFile (h : d.Each P) (uri : String)
    (opened : P d.documents.length { task := { uri } }) : (d.openFile uri).state.Each P := by
  unfold Debugger.openFile
  split
  · exact h
  · intro place doc hdoc
    rw [List.getElem?_append] at hdoc
    split at hdoc
    · exact h place doc hdoc
    · rename_i hlt
      obtain ⟨hi, rfl⟩ := List.getElem?_eq_some_iff.mp hdoc
      have hplace : place = d.documents.length := by
        simp only [List.length_singleton] at hi
        omega
      subst hplace
      simpa using opened

theorem document_eq_ok_iff {uri : String} {doc : Document} :
    d.document uri = .ok doc ↔
      ∃ place, d.place? uri = some place ∧ d.documents[place]? = some doc := by
  unfold document document?
  cases d.place? uri with
  | none => simp
  | some place =>
    cases hdoc : d.documents[place]? <;> simp [hdoc]

theorem place_eq_ok_iff {uri : String} {place : Nat} :
    d.place uri = .ok place ↔ d.place? uri = some place := by
  unfold Debugger.place
  split <;> simp_all

/-- The snapshot of a heap request is that of a step of the run stored now. -/
theorem takeHeap_eq_ok_iff {uri : String} {number : Nat} {image : Bool} {ticket : HeapTicket} :
    d.takeHeap capture uri number image = .ok ticket ↔
      ∃ doc run step, d.place? uri = some ticket.place ∧ d.documents[ticket.place]? = some doc ∧
        doc.task.run? = some run ∧ run.step number = .ok step ∧
        capture step image = .ok ticket.snapshot ∧ ticket.imageDir = d.settings.heapImageDir := by
  unfold takeHeap
  constructor
  · intro h
    split at h
    · cases h
    rename_i place hplace
    split at h
    · cases h
    rename_i run hrun
    obtain ⟨doc, hdoc, hrun⟩ := Option.bind_eq_some_iff.mp hrun
    split at h
    · cases h
    rename_i step hstep
    split at h
    · cases h
    rename_i snapshot hsnapshot
    cases h
    exact ⟨doc, run, step, place_eq_ok_iff.mp hplace, hdoc, hrun, hstep, hsnapshot, rfl⟩
  · rintro ⟨doc, run, step, hplace, hdoc, hrun, hstep, hsnapshot, hdir⟩
    simp only [place_eq_ok_iff.mpr hplace, hdoc, Option.bind_some, hrun, hstep, hsnapshot, ← hdir]

/-- Storing a snapshot writes its image, if it has one, and then pushes it, if writing
went well. -/
theorem storeHeap_cases (d : Debugger) {ticket : HeapTicket} {doc : Document}
    (hdoc : d.documents[ticket.place]? = some doc) :
    (ticket.snapshot.image = none ∧ d.storeHeap ticket = d.pushSnapshot ticket doc.session) ∨
    ∃ image disk, ticket.snapshot.image = some image ∧
      ((∃ e, Heap.writeImage d.disk ticket.imageDir doc.session.next image = (disk, .error e) ∧
          d.storeHeap ticket = ({ d with disk }, .error e)) ∨
        (Heap.writeImage d.disk ticket.imageDir doc.session.next image = (disk, .ok ()) ∧
          d.storeHeap ticket = { d with disk }.pushSnapshot ticket doc.session)) := by
  simp only [storeHeap, hdoc]
  cases himage : ticket.snapshot.image with
  | none => exact .inl ⟨rfl, rfl⟩
  | some image =>
    refine .inr ⟨image, ?_⟩
    dsimp only
    generalize Heap.writeImage d.disk ticket.imageDir doc.session.next image = result
    obtain ⟨disk, e | ⟨⟩⟩ := result
    · exact ⟨disk, rfl, .inl ⟨e, rfl, rfl⟩⟩
    · exact ⟨disk, rfl, .inr ⟨rfl, rfl⟩⟩

theorem Each.pushSnapshot (h : d.Each P) {ticket : HeapTicket} {doc : Document}
    (hdoc : d.documents[ticket.place]? = some doc)
    (pushed : ∀ session, doc.session.push ticket.snapshot = .ok session →
      P ticket.place { doc with session }) :
    (d.pushSnapshot ticket doc.session).1.Each P := by
  unfold Debugger.pushSnapshot
  split
  · exact h
  · rename_i session hsession
    refine h.update fun old hold => ?_
    obtain rfl : doc = old := Option.some.inj (hdoc.symm.trans hold)
    exact pushed session hsession

theorem Each.storeHeap (h : d.Each P) {ticket : HeapTicket} {doc : Document}
    (hdoc : d.documents[ticket.place]? = some doc)
    (pushed : ∀ session, doc.session.push ticket.snapshot = .ok session →
      P ticket.place { doc with session }) :
    (d.storeHeap ticket).1.Each P := by
  rcases d.storeHeap_cases hdoc with ⟨-, hs⟩ | ⟨image, disk, -, ⟨e, -, hs⟩ | ⟨-, hs⟩⟩
  · rw [hs]
    exact h.pushSnapshot hdoc pushed
  · rw [hs]
    exact h
  · rw [hs]
    have hdisk : Each { d with disk } P := h
    exact hdisk.pushSnapshot hdoc pushed

theorem showHeap_state (d : Debugger) (capture : Heap.Capture) (uri : String) (number : Nat)
    (image : Bool) :
    (d.showHeap capture uri number image).state =
      match d.takeHeap capture uri number image with
      | .error _ => d
      | .ok ticket => (d.storeHeap ticket).1 := by
  unfold showHeap
  cases d.takeHeap capture uri number image with
  | error e => rfl
  | ok ticket =>
    generalize hs : d.storeHeap ticket = result
    obtain ⟨stored, e | ⟨⟩⟩ := result <;> simp only [hs]

/-- All but what the operation is about is as it was. -/
structure Frame (op : Operation) (d e : Debugger) : Prop where
  settings : (∀ settings, op ≠ .setSettings settings) → e.settings = d.settings
  disk : (∀ uri number image, op ≠ .showHeap uri number image) → e.disk = d.disk
  registry : (∀ uri, op ≠ .openFile uri) → (∀ uri, op ≠ .closeFile uri) →
    e.registry = d.registry
  length : d.documents.length ≤ e.documents.length

theorem length_update (d : Debugger) (place : Nat) (change : Document → Document) :
    (d.update place change).documents.length = d.documents.length :=
  List.length_modify ..

theorem updateUri_frame (d : Debugger) (uri : String) (change : Document → Document) :
    ∃ documents, d.updateUri uri change = { d with documents } ∧
      documents.length = d.documents.length := by
  unfold updateUri
  split
  · exact ⟨_, rfl, rfl⟩
  · exact ⟨_, rfl, d.length_update _ change⟩

theorem updateAll_frame (d : Debugger) (change : Document → Document) :
    ∃ documents, d.updateAll change = { d with documents } ∧
      documents.length = d.documents.length := by
  have hfold : ∀ (entries : List (String × Nat)) (d : Debugger), ∃ documents,
      entries.foldl (fun d e => d.update e.2 change) d = { d with documents } ∧
        documents.length = d.documents.length := by
    intro entries
    induction entries with
    | nil => exact fun d => ⟨d.documents, rfl, rfl⟩
    | cons e rest ih =>
      intro d
      obtain ⟨documents, h, hlength⟩ := ih (d.update e.2 change)
      exact ⟨documents, h, hlength.trans (d.length_update e.2 change)⟩
  exact hfold d.registry d

theorem pushSnapshot_frame (d : Debugger) (ticket : HeapTicket) (session : Heap.Session) :
    ∃ documents, (d.pushSnapshot ticket session).1 = { d with documents } ∧
      documents.length = d.documents.length := by
  unfold pushSnapshot
  split
  · exact ⟨_, rfl, rfl⟩
  · exact ⟨_, rfl, d.length_update _ _⟩

theorem storeHeap_frame (d : Debugger) (ticket : HeapTicket) :
    ∃ documents disk, (d.storeHeap ticket).1 = { d with documents, disk } ∧
      documents.length = d.documents.length := by
  unfold storeHeap
  split
  · exact ⟨_, _, rfl, rfl⟩
  split
  · obtain ⟨documents, h, hlength⟩ := d.pushSnapshot_frame ticket _
    exact ⟨documents, d.disk, h, hlength⟩
  split
  · exact ⟨_, _, rfl, rfl⟩
  · rename_i disk _
    obtain ⟨documents, h, hlength⟩ := pushSnapshot_frame { d with disk } ticket _
    exact ⟨documents, disk, h, hlength⟩

theorem showHeap_frame (d : Debugger) (capture : Heap.Capture) (uri : String) (number : Nat)
    (image : Bool) :
    ∃ documents disk,
      (d.showHeap capture uri number image).state = { d with documents, disk } ∧
      documents.length = d.documents.length := by
  rw [showHeap_state]
  split
  · exact ⟨_, _, rfl, rfl⟩
  · exact d.storeHeap_frame _

theorem Frame.of_documents {op : Operation} {e : Debugger}
    (h : ∃ documents, e = { d with documents } ∧ documents.length = d.documents.length) :
    Frame op d e := by
  obtain ⟨documents, rfl, hlength⟩ := h
  exact ⟨fun _ => rfl, fun _ => rfl, fun _ _ => rfl, Nat.le_of_eq hlength.symm⟩

/-- The settings and the registry change by operations of their own alone, the disk by
heap requests, and no document is lost. -/
theorem perform_frame (capture : Heap.Capture) (d : Debugger) (op : Operation) :
    Frame op d (d.perform capture op).state := by
  cases op with
  | openFile uri =>
    simp only [perform, openFile]
    split
    · exact .of_documents ⟨_, rfl, rfl⟩
    · refine ⟨fun _ => rfl, fun _ => rfl, fun hopen _ => absurd rfl (hopen uri), ?_⟩
      simp
  | closeFile uri =>
    simp only [perform, closeFile]
    split
    · exact .of_documents ⟨_, rfl, rfl⟩
    · refine ⟨fun _ => rfl, fun _ => rfl, fun _ hclose => absurd rfl (hclose uri), ?_⟩
      exact Nat.le_of_eq (d.length_update _ _).symm
  | start uri =>
    simp only [perform, start]
    cases d.place uri with
    | error e => exact .of_documents ⟨_, rfl, rfl⟩
    | ok place => exact .of_documents ⟨_, rfl, d.length_update place _⟩
  | complete uri log =>
    simp only [perform, complete]
    split
    · exact .of_documents ⟨_, rfl, rfl⟩
    · exact .of_documents ⟨_, rfl, d.length_update _ _⟩
  | trace uri number =>
    simp only [perform, trace]
    split
    · exact .of_documents ⟨_, rfl, rfl⟩
    split
    · exact .of_documents ⟨_, rfl, rfl⟩
    · exact .of_documents (d.updateUri_frame uri _)
  | showHeap uri number image =>
    obtain ⟨documents, disk, h, hlength⟩ := d.showHeap_frame capture uri number image
    simp only [perform, h]
    exact ⟨fun _ => rfl, fun hshow => absurd rfl (hshow uri number image), fun _ _ => rfl,
      Nat.le_of_eq hlength.symm⟩
  | heapView uri => exact .of_documents ⟨_, rfl, rfl⟩
  | heapRevision uri => exact .of_documents ⟨_, rfl, rfl⟩
  | heapPage uri => exact .of_documents ⟨_, rfl, rfl⟩
  | diagnostics uri => exact .of_documents ⟨_, rfl, rfl⟩
  | resetDiagnostics uri => exact .of_documents (d.updateUri_frame uri _)
  | resetState => exact .of_documents (d.updateAll_frame _)
  | stopDebugging => exact .of_documents (d.updateAll_frame _)
  | setSettings settings =>
    exact ⟨fun hset => absurd rfl (hset settings), fun _ => rfl, fun _ _ => rfl, Nat.le_refl _⟩

theorem Each.perform (h : d.Each P) {op : Operation}
    (opened : ∀ uri, op = .openFile uri → P d.documents.length { task := { uri } })
    (changed : ∀ place doc doc', doc.Effect capture op doc' → P place doc → P place doc') :
    (d.perform capture op).state.Each P := by
  cases op with
  | openFile uri => exact h.openFile uri (opened uri rfl)
  | closeFile uri =>
    simp only [Debugger.perform, Debugger.closeFile]
    split
    · exact h
    · exact h.update fun doc hdoc => changed _ _ _ (.close doc) (h _ doc hdoc)
  | start uri =>
    simp only [Debugger.perform, Debugger.start]
    cases d.place uri with
    | error e => exact h
    | ok place => exact h.update fun doc hdoc => changed _ _ _ (.start doc) (h _ doc hdoc)
  | complete uri log =>
    simp only [Debugger.perform, Debugger.complete]
    split
    · exact h
    · exact h.update fun doc hdoc => changed _ _ _ (.complete doc) (h _ doc hdoc)
  | trace uri number =>
    simp only [Debugger.perform, Debugger.trace]
    split
    · exact h
    · rename_i doc hdoc
      split
      · exact h
      · obtain ⟨place, hplace, hdoc⟩ := document_eq_ok_iff.mp hdoc
        simp only [Debugger.updateUri, hplace]
        refine h.update fun old hold => ?_
        obtain rfl : doc = old := Option.some.inj (hdoc.symm.trans hold)
        exact changed _ _ _ (.trace doc _) (h _ doc hdoc)
  | showHeap uri number image =>
    simp only [Debugger.perform, showHeap_state]
    split
    · exact h
    · rename_i ticket hticket
      obtain ⟨doc, run, step, -, hdoc, hrun, hstep, hsnapshot, -⟩ := takeHeap_eq_ok_iff.mp hticket
      refine h.storeHeap hdoc fun session hsession => ?_
      exact changed _ _ _ (.show hrun hstep hsnapshot hsession) (h _ doc hdoc)
  | heapView uri => exact h
  | heapRevision uri => exact h
  | heapPage uri => exact h
  | diagnostics uri => exact h
  | resetDiagnostics uri =>
    exact h.updateUri fun place doc hdoc => changed _ _ _ (.resetDiagnostics doc) hdoc
  | resetState => exact h.updateAll fun place doc hdoc => changed _ _ _ (.resetState doc) hdoc
  | stopDebugging => exact h.updateAll fun place doc hdoc => changed _ _ _ (.stop doc) hdoc
  | setSettings settings => exact h

/-- What a new document has and every effect keeps, every document has for good. -/
theorem Each.after (h : d.Each P) (opened : ∀ place uri, P place { task := { uri } })
    (changed : ∀ op place doc doc', doc.Effect capture op doc' → P place doc → P place doc')
    (history : List Operation) : (d.after capture history).Each P := by
  induction history generalizing d with
  | nil => exact h
  | cons op rest ih => exact ih (h.perform (fun uri _ => opened _ uri) (changed op))

end Debugger

end ProofStepper
