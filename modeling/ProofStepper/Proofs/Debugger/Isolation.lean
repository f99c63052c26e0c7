import ProofStepper.Proofs.Debugger.Images
import ProofStepper.Proofs.Debugger.Registry

/-!
# Documents do not interfere

What the debugger answers about a uri depends on the settings and on the document of the
uri. Operations that name another uri change neither, and all other ones change them
alike wherever they are alike. So the answers about a uri stay the same if all that names
other uris is left out of a history. The image files are the one thing that documents
share: a request fails if its image cannot be written, and this is excluded.
-/
namespace ProofStepper

/-- The snapshot that a heap request takes of a document. -/
def Document.taking (capture : Heap.Capture) (uri : String) (number : Nat) (image : Bool)
    (doc : Document) : Except Failure Snapshot :=
  match doc.task.run? with
  | none => .error (.noCompletedRun uri)
  | some run =>
    match run.step number with
    | .error e => .error e
    | .ok step => capture step image

/-- What a heap request makes of the document of a uri if its image can be written. -/
def Document.showing (capture : Heap.Capture) (uri : String) (number : Nat) (image : Bool) :
    Option Document → Except Failure Document
  | none => .error (.unknownDocument uri)
  | some doc =>
    match doc.taking capture uri number image with
    | .error e => .error e
    | .ok snapshot => (doc.session.push snapshot).map fun session => { doc with session }

/-- An operation that does not concern a uri leaves its document alone. -/
theorem Operation.Turns.eq_of_not_concerns {capture : Heap.Capture} {uri : String}
    {op : Operation} {doc? doc?' : Option Document} (h : op.Turns capture uri doc? doc?')
    (hop : ¬ op.Concerns uri) : doc?' = doc? := by
  cases h with
  | opened => exact absurd (.inr rfl) hop
  | closed => exact absurd (.inr rfl) hop
  | absent => rfl
  | changed _ hconcerns => exact absurd hconcerns hop
  | kept => rfl

namespace Debugger
variable {capture : Heap.Capture} {d e : Debugger} {uri : String} {number : Nat} {image : Bool}

/-- The images that an operation asks for can be written. -/
def WritesImage (capture : Heap.Capture) (d : Debugger) (op : Operation) : Prop :=
  ∀ s ∈ d.shown? capture op, ∀ image ∈ s.snapshot.image,
    (Heap.writeImage d.disk d.settings.heapImageDir s.slot image).2.isOk

/-- The answer, the notices and the document with which a heap request leaves a uri. -/
def heapOutcome (uri : String) (number : Nat) (before : Option Document) :
    Except Failure Document → Bool × List Notice × Option Document
  | .error e =>
    (false, [.error ("Error showing heap: " ++ e.message) (requestDetails uri number)], before)
  | .ok doc => (true, [], some doc)

def outcomeAt (uri : String) (r : Reply Debugger Bool) : Bool × List Notice × Option Document :=
  (r.answer, r.notices, r.state.document? uri)

theorem outcomeAt_refused {f : Failure} (h : d.takeHeap capture uri number image = .error f) :
    outcomeAt uri (d.showHeap capture uri number image) =
      heapOutcome uri number (d.document? uri) (.error f) := by
  simp only [outcomeAt, showHeap, h, heapOutcome]

theorem takeHeap_eq {place : Nat} {doc : Document} (hp : d.place? uri = some place)
    (hdoc : d.documents[place]? = some doc) :
    d.takeHeap capture uri number image = (doc.taking capture uri number image).map
      fun snapshot => ⟨place, snapshot, d.settings.heapImageDir⟩ := by
  simp only [takeHeap, Debugger.place, hp, hdoc, Option.bind_some, Document.taking]
  cases doc.task.run? with
  | none => rfl
  | some run =>
    dsimp only
    cases run.step number with
    | error f => rfl
    | ok step =>
      dsimp only
      cases capture step image <;> rfl

/-- A heap request whose snapshot is pushed in the end. -/
theorem outcomeAt_pushed {ticket : HeapTicket} {doc : Document} {disk : Disk}
    (hticket : d.takeHeap capture uri number image = .ok ticket)
    (hp : d.place? uri = some ticket.place) (hdoc : d.document? uri = some doc)
    (hstore : d.storeHeap ticket = pushSnapshot { d with disk } ticket doc.session) :
    outcomeAt uri (d.showHeap capture uri number image) =
      heapOutcome uri number (some doc)
        ((doc.session.push ticket.snapshot).map fun session => { doc with session }) := by
  have hdoc' : document? { d with disk } uri = some doc := hdoc
  have hp' : place? { d with disk } uri = some ticket.place := hp
  simp only [outcomeAt, showHeap, hticket, hstore, pushSnapshot]
  cases doc.session.push ticket.snapshot with
  | error f => simp only [hdoc', heapOutcome, Except.map]
  | ok session =>
    simp only [document?_update_self hp', hdoc', Option.map_some, heapOutcome, Except.map]

/-- If its image can be written, a heap request depends on the document alone. -/
theorem Proper.outcomeAt_showHeap (h : d.Proper)
    (hw : d.WritesImage capture (.showHeap uri number image)) :
    outcomeAt uri (d.showHeap capture uri number image) =
      heapOutcome uri number (d.document? uri)
        (Document.showing capture uri number image (d.document? uri)) := by
  cases hdoc : d.document? uri with
  | none =>
    have hp := h.document?_eq_none_iff.mp hdoc
    have hticket : d.takeHeap capture uri number image = .error (.unknownDocument uri) := by
      simp only [takeHeap, Debugger.place, hp]
    rw [outcomeAt_refused hticket, hdoc]
    rfl
  | some doc =>
    obtain ⟨place, hp, hplace⟩ := Option.bind_eq_some_iff.mp hdoc
    have hticket : d.takeHeap capture uri number image =
        (doc.taking capture uri number image).map
          fun snapshot => ⟨place, snapshot, d.settings.heapImageDir⟩ := takeHeap_eq hp hplace
    rw [Document.showing]
    cases htaking : doc.taking capture uri number image with
    | error f =>
      rw [htaking] at hticket
      rw [outcomeAt_refused hticket, hdoc]
    | ok snapshot =>
      rw [htaking] at hticket
      have hat : d.documents[(HeapTicket.mk place snapshot d.settings.heapImageDir).place]? =
          some doc := hplace
      rcases d.storeHeap_cases hat with
        ⟨-, hstore⟩ | ⟨i, disk, hsome, ⟨f, hwrite, -⟩ | ⟨-, hstore⟩⟩
      · exact outcomeAt_pushed hticket hp hdoc hstore
      · have hok := hw _ (shown?_of_ticket hticket hat) i hsome
        rw [hwrite] at hok
        cases hok
      · exact outcomeAt_pushed hticket hp hdoc hstore

/-- Two states with the same settings and the same document of a uri. -/
structure Alike (uri : String) (d e : Debugger) : Prop where
  settings : d.settings = e.settings
  document : d.document? uri = e.document? uri

/-- Nothing changes for a uri by an operation that names another one. -/
theorem Alike.perform_other (h : d.Alike uri e) (hd : d.Proper) (capture : Heap.Capture)
    {op : Operation} (hop : ¬ op.Concerns uri) : (d.perform capture op).state.Alike uri e := by
  have hset : ∀ settings, op ≠ .setSettings settings := by
    rintro settings rfl
    exact hop (.inl rfl)
  refine ⟨?_, ?_⟩
  · rw [(perform_frame capture d op).settings hset, h.settings]
  · rw [(hd.turns_perform capture op uri).eq_of_not_concerns hop, h.document]

theorem Alike.places (h : d.Alike uri e) (hd : d.Proper) (he : e.Proper) :
    (d.place? uri = none ∧ e.place? uri = none) ∨
      ∃ place place', d.place? uri = some place ∧ e.place? uri = some place' := by
  cases hp : d.place? uri with
  | none =>
    have hnone : e.document? uri = none := h.document ▸ hd.document?_eq_none_iff.mpr hp
    exact .inl ⟨rfl, he.document?_eq_none_iff.mp hnone⟩
  | some place =>
    have hsome : e.place? uri ≠ none := by
      intro hq
      have hnone : d.document? uri = none := h.document.trans (he.document?_eq_none_iff.mpr hq)
      rw [hd.document?_eq_none_iff.mp hnone] at hp
      cases hp
    obtain ⟨place', hq⟩ := Option.ne_none_iff_exists'.mp hsome
    exact .inr ⟨place, place', rfl, hq⟩

theorem Alike.document_eq (h : d.Alike uri e) : d.document uri = e.document uri := by
  simp only [Debugger.document, h.document]

theorem Alike.outcomeAt_showHeap (h : d.Alike uri e) (hd : d.Proper) (he : e.Proper)
    (hw : d.WritesImage capture (.showHeap uri number image))
    (hw' : e.WritesImage capture (.showHeap uri number image)) :
    outcomeAt uri (d.showHeap capture uri number image) =
      outcomeAt uri (e.showHeap capture uri number image) := by
  rw [hd.outcomeAt_showHeap hw, he.outcomeAt_showHeap hw', h.document]

variable {op : Operation}

/-- An answer about a uri comes from the settings and the document of the uri. -/
theorem Alike.answer (h : d.Alike uri e) (hd : d.Proper) (he : e.Proper) (hop : op.Concerns uri)
    (hw : d.WritesImage capture op) (hw' : e.WritesImage capture op) :
    (d.perform capture op).answer = (e.perform capture op).answer ∧
      (d.perform capture op).notices = (e.perform capture op).notices := by
  have hplaces := h.places hd he
  cases op with
  | openFile u =>
    obtain rfl := hop.named rfl
    rcases hplaces with ⟨hp, hq⟩ | ⟨place, place', hp, hq⟩ <;>
      simp only [Debugger.perform, openFile, hp, hq, and_self]
  | closeFile u =>
    obtain rfl := hop.named rfl
    rcases hplaces with ⟨hp, hq⟩ | ⟨place, place', hp, hq⟩ <;>
      simp only [Debugger.perform, closeFile, hp, hq, and_self]
  | start u =>
    obtain rfl := hop.named rfl
    rcases hplaces with ⟨hp, hq⟩ | ⟨place, place', hp, hq⟩ <;>
      simp only [Debugger.perform, start, Debugger.place, hp, hq, and_self]
  | complete u log =>
    obtain rfl := hop.named rfl
    rcases hplaces with ⟨hp, hq⟩ | ⟨place, place', hp, hq⟩ <;>
      simp only [Debugger.perform, complete, Debugger.place, hp, hq, and_self]
  | trace u number =>
    obtain rfl := hop.named rfl
    simp only [Debugger.perform, trace, h.document_eq, h.settings]
    cases e.document uri with
    | error f => exact ⟨rfl, rfl⟩
    | ok doc =>
      dsimp only
      cases (doc.task.trace number e.settings.traceStyle).answer <;> exact ⟨rfl, rfl⟩
  | showHeap u number image =>
    obtain rfl := hop.named rfl
    have hsame := h.outcomeAt_showHeap hd he hw hw'
    exact ⟨congrArg Answer.flag (congrArg Prod.fst hsame), congrArg (·.2.1) hsame⟩
  | heapView u =>
    obtain rfl := hop.named rfl
    simp only [Debugger.perform, heapView, h.document, and_self]
  | heapRevision u =>
    obtain rfl := hop.named rfl
    simp only [Debugger.perform, heapRevision?, h.document, and_self]
  | heapPage u =>
    obtain rfl := hop.named rfl
    simp only [Debugger.perform, heapPage, heapPageNotices, h.document, h.document_eq, h.settings,
      and_self]
  | diagnostics u =>
    obtain rfl := hop.named rfl
    simp only [Debugger.perform, diagnostics, task?, h.document, and_self]
  | resetDiagnostics u =>
    obtain rfl := hop.named rfl
    rcases hplaces with ⟨hp, hq⟩ | ⟨place, place', hp, hq⟩ <;>
      simp only [Debugger.perform, resetDiagnostics, hp, hq, Option.isSome, and_self]
  | resetState => exact ⟨rfl, rfl⟩
  | stopDebugging => exact ⟨rfl, rfl⟩
  | setSettings settings => exact ⟨rfl, rfl⟩

theorem Alike.settings_perform (h : d.Alike uri e) (capture : Heap.Capture) (op : Operation) :
    (d.perform capture op).state.settings = (e.perform capture op).state.settings := by
  by_cases hset : ∃ settings, op = .setSettings settings
  · obtain ⟨settings, rfl⟩ := hset
    rfl
  · have hne : ∀ settings, op ≠ .setSettings settings := by simpa using hset
    rw [(perform_frame capture d op).settings hne, (perform_frame capture e op).settings hne,
      h.settings]

/-- An operation that concerns a uri changes its document alike in both states. -/
theorem Alike.perform (h : d.Alike uri e) (hd : d.Proper) (he : e.Proper) (hop : op.Concerns uri)
    (hw : d.WritesImage capture op) (hw' : e.WritesImage capture op) :
    (d.perform capture op).state.Alike uri (e.perform capture op).state := by
  refine ⟨h.settings_perform capture op, ?_⟩
  cases op with
  | openFile u =>
    simp only [Debugger.perform, hd.document?_openFile, he.document?_openFile, h.document]
  | closeFile u =>
    simp only [Debugger.perform, hd.document?_closeFile, he.document?_closeFile, h.document]
  | start u =>
    simp only [perform_start_state, start_state, hd.document?_updateUri, he.document?_updateUri,
      h.document]
  | complete u log =>
    simp only [Debugger.perform, complete_state, hd.document?_updateUri, he.document?_updateUri,
      h.document]
  | trace u number =>
    simp only [Debugger.perform, trace_state, hd.document?_updateUri, he.document?_updateUri,
      h.document, h.settings]
  | showHeap u number image =>
    obtain rfl := hop.named rfl
    exact congrArg (·.2.2) (h.outcomeAt_showHeap hd he hw hw')
  | resetDiagnostics u =>
    simp only [Debugger.perform, resetDiagnostics, hd.document?_updateUri, he.document?_updateUri,
      h.document]
  | resetState =>
    simp only [Debugger.perform, resetState, hd.document?_updateAll, he.document?_updateAll,
      h.document]
  | stopDebugging =>
    simp only [Debugger.perform, stopDebugging, hd.document?_updateAll, he.document?_updateAll,
      h.document]
  | _ => exact h.document

/-- What is left of a history without the operations that name another uri. -/
def regarding (uri : String) (history : List Operation) : List Operation :=
  history.filter fun op => op.Concerns uri

theorem regarding_cons_of_pos (hop : op.Concerns uri) (later : List Operation) :
    regarding uri (op :: later) = op :: regarding uri later :=
  List.filter_cons_of_pos (decide_eq_true hop)

theorem regarding_cons_of_neg (hop : ¬ op.Concerns uri) (later : List Operation) :
    regarding uri (op :: later) = regarding uri later :=
  List.filter_cons_of_neg fun h => hop (of_decide_eq_true h)

/-- The answers and the notices of the operations that concern a uri, in their order. -/
def replies (capture : Heap.Capture) (uri : String) (d : Debugger) :
    List Operation → List (Answer × List Notice)
  | [] => []
  | op :: later =>
    let r := d.perform capture op
    if op.Concerns uri then (r.answer, r.notices) :: replies capture uri r.state later
    else replies capture uri r.state later

theorem Alike.replies (h : d.Alike uri e) (hd : d.Proper) (he : e.Proper)
    {history : List Operation} (hw : d.WritesImages capture history)
    (hw' : e.WritesImages capture (regarding uri history)) :
    d.replies capture uri history = e.replies capture uri (regarding uri history) := by
  induction history generalizing d e with
  | nil => rfl
  | cons op later ih =>
    by_cases hop : op.Concerns uri
    · rw [regarding_cons_of_pos hop] at hw' ⊢
      obtain ⟨hanswer, hnotices⟩ := h.answer hd he hop hw.1 hw'.1
      have hlater := ih (h.perform hd he hop hw.1 hw'.1) (hd.perform capture op)
        (he.perform capture op) hw.2 hw'.2
      simp only [Debugger.replies, if_pos hop, hanswer, hnotices, hlater]
    · rw [regarding_cons_of_neg hop] at hw' ⊢
      simp only [Debugger.replies, if_neg hop]
      exact ih (h.perform_other hd capture hop) (hd.perform capture op) he hw.2 hw'

/-- The answers about a uri are those of the history in which all operations that name
other uris are left out, provided that all images can be written in both of them. -/
theorem replies_regarding (capture : Heap.Capture) (settings : Settings) (disk : Disk)
    (uri : String) (history : List Operation)
    (writes : WritesImages capture { settings, disk } history)
    (writes_alone : WritesImages capture { settings, disk } (regarding uri history)) :
    replies capture uri { settings, disk } history =
      replies capture uri { settings, disk } (regarding uri history) :=
  Alike.replies ⟨rfl, rfl⟩ (proper_initial settings disk) (proper_initial settings disk) writes
    writes_alone

/-- Two documents in turn, which write their images to the same file. -/
def inTurn : List Operation :=
  [.openFile "a.vpr", .openFile "b.vpr",
    .complete "b.vpr" { steps := [{ isShown := true, heap := ["acc(y.f)"] }] },
    .complete "a.vpr" { steps := [{ isShown := true, heap := ["acc(x.f)"] }] },
    .showHeap "a.vpr" 0 true, .showHeap "b.vpr" 0 true, .closeFile "b.vpr", .trace "a.vpr" 0,
    .openFile "b.vpr", .heapView "a.vpr", .stopDebugging, .start "b.vpr", .heapPage "a.vpr"]

theorem replies_regarding_inTurn :
    WritesImages Heap.capture { settings := { heapImageDir := "heap" } } inTurn ∧
    WritesImages Heap.capture { settings := { heapImageDir := "heap" } }
      (regarding "a.vpr" inTurn) ∧
    replies Heap.capture "a.vpr" { settings := { heapImageDir := "heap" } } inTurn =
      replies Heap.capture "a.vpr" { settings := { heapImageDir := "heap" } }
        (regarding "a.vpr" inTurn) := by
  have hwrites : WritesImages Heap.capture { settings := { heapImageDir := "heap" } } inTurn := by
    decide
  have halone : WritesImages Heap.capture { settings := { heapImageDir := "heap" } }
      (regarding "a.vpr" inTurn) := by
    decide
  exact ⟨hwrites, halone, replies_regarding _ _ _ _ _ hwrites halone⟩

end Debugger

end ProofStepper
