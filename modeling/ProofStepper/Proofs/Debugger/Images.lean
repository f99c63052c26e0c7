import ProofStepper.Proofs.Debugger.Documents
import ProofStepper.Proofs.Heap.ImageFile
import ProofStepper.Proofs.Heap.Session

/-!
# Whose image a slot shows

The file of an image is named for the slot alone, while snapshots belong to a document
and a slot, and a snapshot without an image leaves the file as it is. So a stored
snapshot has its own image beside it exactly if no image of another one was written for
its slot since, by whichever document, and none was left there before it.
-/
namespace ProofStepper

/-- A snapshot that came into a slot of the document at a place. -/
structure Show where
  place : Nat
  slot : Nat
  snapshot : Snapshot
deriving DecidableEq, Repr, Inhabited

namespace Show

/-- The snapshot that came last into a slot of a document, the last show being first. -/
def lastAt (place slot : Nat) : List Show → Option Snapshot
  | [] => none
  | s :: earlier =>
    if s.place = place ∧ s.slot = slot then some s.snapshot else lastAt place slot earlier

theorem mem_of_lastAt {place slot : Nat} {shows : List Show} {snapshot : Snapshot}
    (h : lastAt place slot shows = some snapshot) : ∃ s ∈ shows, s.place = place := by
  induction shows with
  | nil => cases h
  | cons s earlier ih =>
    unfold lastAt at h
    split at h
    · rename_i he
      exact ⟨s, List.mem_cons_self, he.1⟩
    · obtain ⟨t, ht, hplace⟩ := ih h
      exact ⟨t, List.mem_cons_of_mem _ ht, hplace⟩

/-- The image written last for a slot of any document. -/
def lastImage (shows : List Show) (slot : Nat) : Option String :=
  match shows with
  | [] => none
  | s :: earlier =>
    match s.snapshot.image with
    | none => lastImage earlier slot
    | some image => Heap.withImage (lastImage earlier) s.slot image slot

theorem lastImage_cons_of_none {s : Show} (h : s.snapshot.image = none) (earlier : List Show) :
    lastImage (s :: earlier) = lastImage earlier := by
  funext slot
  simp only [lastImage, h]

theorem lastImage_cons_of_some {s : Show} {image : String} (h : s.snapshot.image = some image)
    (earlier : List Show) :
    lastImage (s :: earlier) = Heap.withImage (lastImage earlier) s.slot image := by
  funext slot
  simp only [lastImage, h]

/-- If all that was shown is of one document and has an image, the image written last for
a slot is that of the snapshot shown last in it. -/
theorem lastImage_of_lastAt {place slot : Nat} {shows : List Show} {snapshot : Snapshot}
    (hone : ∀ s ∈ shows, s.place = place) (himage : ∀ s ∈ shows, s.snapshot.image ≠ none)
    (h : lastAt place slot shows = some snapshot) : lastImage shows slot = snapshot.image := by
  induction shows with
  | nil => cases h
  | cons s earlier ih =>
    obtain ⟨image, hsome⟩ := Option.ne_none_iff_exists'.mp (himage s List.mem_cons_self)
    rw [lastImage_cons_of_some hsome, Heap.withImage]
    unfold lastAt at h
    by_cases hslot : slot = s.slot
    · rw [if_pos ⟨hone s List.mem_cons_self, hslot.symm⟩] at h
      cases h
      rw [if_pos hslot, hsome]
    · rw [if_neg fun he => hslot he.2.symm] at h
      rw [if_neg hslot]
      exact ih (fun t ht => hone t (List.mem_cons_of_mem _ ht))
        (fun t ht => himage t (List.mem_cons_of_mem _ ht)) h

end Show

/-- Each stored snapshot is the one told for its slot, and there is a slot to fill. -/
structure Document.Stores (doc : Document) (last : Nat → Option Snapshot) : Prop where
  next : doc.session.next < Heap.slotCount
  stored : ∀ slot snapshot, doc.session.store.get? slot = some snapshot → last slot = some snapshot

theorem Document.Stores.empty {doc : Document} {last : Nat → Option Snapshot}
    (hstore : doc.session.store = {}) (hnext : doc.session.next < Heap.slotCount) :
    doc.Stores last := by
  refine ⟨hnext, fun slot snapshot hs => ?_⟩
  rw [hstore, Heap.Store.get?_empty] at hs
  cases hs

namespace Debugger
variable {capture : Heap.Capture} {d : Debugger}

/-- The snapshot that an operation brings into a slot. -/
def shown? (capture : Heap.Capture) (d : Debugger) : Operation → Option Show
  | .showHeap uri number image =>
    match d.takeHeap capture uri number image with
    | .error _ => none
    | .ok ticket =>
      d.documents[ticket.place]?.map fun doc => ⟨ticket.place, doc.session.next, ticket.snapshot⟩
  | _ => none

theorem shown?_of_refused {uri : String} {number : Nat} {image : Bool} {e : Failure}
    (h : d.takeHeap capture uri number image = .error e) :
    d.shown? capture (.showHeap uri number image) = none := by
  simp only [shown?, h]

theorem shown?_of_ticket {uri : String} {number : Nat} {image : Bool} {ticket : HeapTicket}
    {doc : Document} (h : d.takeHeap capture uri number image = .ok ticket)
    (hdoc : d.documents[ticket.place]? = some doc) :
    d.shown? capture (.showHeap uri number image) =
      some ⟨ticket.place, doc.session.next, ticket.snapshot⟩ := by
  simp only [shown?, h, hdoc, Option.map_some]

theorem shown?_of_other {op : Operation}
    (h : ∀ uri number image, op ≠ .showHeap uri number image) : d.shown? capture op = none := by
  unfold shown?
  split
  · exact absurd rfl (h _ _ _)
  · rfl

/-- All that a history shows, the last one first. -/
def shows (capture : Heap.Capture) (d : Debugger) : List Operation → List Show
  | [] => []
  | op :: later => shows capture (d.perform capture op).state later ++ (d.shown? capture op).toList

/-- Every image of a history is written without a failure. -/
def WritesImages (capture : Heap.Capture) (d : Debugger) : List Operation → Prop
  | [] => True
  | op :: later =>
    (∀ s ∈ d.shown? capture op, ∀ image ∈ s.snapshot.image,
      (Heap.writeImage d.disk d.settings.heapImageDir s.slot image).2.isOk) ∧
    WritesImages capture (d.perform capture op).state later

instance decidableWritesImages (capture : Heap.Capture) :
    ∀ (d : Debugger) (history : List Operation), Decidable (d.WritesImages capture history)
  | _, [] => isTrue trivial
  | d, op :: later =>
    have := decidableWritesImages capture (d.perform capture op).state later
    inferInstanceAs (Decidable (_ ∧ _))

/-- The slots and the image files are those that the snapshots shown so far leave. -/
structure Tracks (start : Disk) (dir : String) (earlier : List Show) (d : Debugger) : Prop where
  imageDir : d.settings.heapImageDir = dir
  slots : d.Each fun place doc => doc.Stores fun slot => Show.lastAt place slot earlier
  files : Heap.Written start d.disk dir (Show.lastImage earlier)

variable {start : Disk} {dir : String} {earlier : List Show}

/-- Without a heap request no slot is filled, and snapshots may only be dropped. -/
theorem Tracks.perform_other (h : d.Tracks start dir earlier) {op : Operation}
    (hshow : ∀ uri number image, op ≠ .showHeap uri number image)
    (fixed : ∀ s, op = .setSettings s → s.heapImageDir = dir) :
    (d.perform capture op).state.Tracks start dir earlier := by
  have hslots : (d.perform capture op).state.Each fun place doc =>
      doc.Stores fun slot => Show.lastAt place slot earlier := by
    refine h.slots.perform (fun uri _ => .empty rfl Nat.zero_lt_two) ?_
    intro place doc doc' he hdoc
    cases he with
    | close => exact ⟨hdoc.next, hdoc.stored⟩
    | start => exact .empty rfl Nat.zero_lt_two
    | complete => exact .empty rfl Nat.zero_lt_two
    | trace => exact ⟨hdoc.next, hdoc.stored⟩
    | «show» => exact absurd rfl (hshow _ _ _)
    | resetDiagnostics => exact ⟨hdoc.next, hdoc.stored⟩
    | resetState => exact .empty rfl hdoc.next
    | stop => exact .empty rfl Nat.zero_lt_two
  by_cases hset : ∃ s, op = .setSettings s
  · obtain ⟨s, rfl⟩ := hset
    exact ⟨fixed s rfl, hslots, h.files⟩
  · have hframe := perform_frame capture d op
    have hsettings := hframe.settings (by simpa using hset)
    exact ⟨hsettings ▸ h.imageDir, hslots, hframe.disk hshow ▸ h.files⟩

/-- A snapshot that was pushed is the last one for its slot and its document, and the
other slots are as before. -/
theorem Tracks.pushSnapshot (h : d.Tracks start dir earlier) {ticket : HeapTicket} {doc : Document}
    (hdoc : d.documents[ticket.place]? = some doc) (disk : Disk)
    (hfiles : Heap.Written start disk dir
      (Show.lastImage (⟨ticket.place, doc.session.next, ticket.snapshot⟩ :: earlier))) :
    (pushSnapshot { d with disk } ticket doc.session).1.Tracks start dir
      (⟨ticket.place, doc.session.next, ticket.snapshot⟩ :: earlier) := by
  have hold := h.slots _ _ hdoc
  obtain ⟨session, hsession⟩ := Heap.Session.push_isOk hold.next ticket.snapshot
  have hpushed := Heap.Session.pushed_of_push hsession
  simp only [Debugger.pushSnapshot, hsession]
  refine ⟨h.imageDir, fun place later hlater => ?_, hfiles⟩
  rw [getElem?_update] at hlater
  split at hlater
  · rename_i hplace
    subst hplace
    simp only [hdoc, Option.map_some, Option.some.injEq] at hlater
    subst hlater
    refine ⟨?_, fun slot snapshot hs => ?_⟩
    · rw [hpushed.next]
      exact Nat.mod_lt _ Nat.zero_lt_two
    · rw [hpushed.slots] at hs
      unfold Show.lastAt
      split at hs
      · rename_i hslot
        rw [if_pos ⟨rfl, hslot.symm⟩]
        exact hs
      · rename_i hslot
        rw [if_neg fun he => hslot he.2.symm]
        exact hold.stored slot snapshot hs
  · rename_i hplace
    have hkept := h.slots place later hlater
    refine ⟨hkept.next, fun slot snapshot hs => ?_⟩
    unfold Show.lastAt
    rw [if_neg fun he => hplace he.1.symm]
    exact hkept.stored slot snapshot hs

theorem Tracks.showHeap (hs : Heap.NoImages start dir) (h : d.Tracks start dir earlier)
    {uri : String} {number : Nat} {image : Bool}
    (hw : ∀ s ∈ d.shown? capture (.showHeap uri number image), ∀ i ∈ s.snapshot.image,
      (Heap.writeImage d.disk d.settings.heapImageDir s.slot i).2.isOk) :
    (d.showHeap capture uri number image).state.Tracks start dir
      ((d.shown? capture (.showHeap uri number image)).toList ++ earlier) := by
  rw [showHeap_state]
  cases hticket : d.takeHeap capture uri number image with
  | error e =>
    rw [shown?_of_refused hticket]
    exact h
  | ok ticket =>
    obtain ⟨doc, -, -, -, hdoc, -, -, -, hdir⟩ := takeHeap_eq_ok_iff.mp hticket
    have hnext := (h.slots _ _ hdoc).next
    rw [shown?_of_ticket hticket hdoc] at hw ⊢
    dsimp only
    rcases d.storeHeap_cases hdoc with
      ⟨hnone, hstore⟩ | ⟨i, disk, hsome, ⟨e, hwrite, -⟩ | ⟨hwrite, hstore⟩⟩
    · rw [hstore]
      refine h.pushSnapshot hdoc d.disk ?_
      rw [Show.lastImage_cons_of_none hnone]
      exact h.files
    · have hok := hw _ rfl i hsome
      rw [← hdir, hwrite] at hok
      cases hok
    · rw [hstore]
      refine h.pushSnapshot hdoc disk ?_
      rw [Show.lastImage_cons_of_some hsome]
      rw [hdir, h.imageDir] at hwrite
      exact h.files.writeImage hs hnext hwrite

theorem Tracks.perform (hs : Heap.NoImages start dir) (h : d.Tracks start dir earlier)
    {op : Operation} (fixed : ∀ s, op = .setSettings s → s.heapImageDir = dir)
    (hw : ∀ s ∈ d.shown? capture op, ∀ image ∈ s.snapshot.image,
      (Heap.writeImage d.disk d.settings.heapImageDir s.slot image).2.isOk) :
    (d.perform capture op).state.Tracks start dir ((d.shown? capture op).toList ++ earlier) := by
  by_cases hshow : ∃ uri number image, op = .showHeap uri number image
  · obtain ⟨uri, number, image, rfl⟩ := hshow
    exact h.showHeap hs hw
  · have hne : ∀ uri number image, op ≠ .showHeap uri number image := by simpa using hshow
    rw [shown?_of_other hne]
    exact h.perform_other hne fixed

/-- After a whole history the slots and the files are those its snapshots leave. -/
theorem Tracks.after (hs : Heap.NoImages start dir) (h : d.Tracks start dir earlier)
    {history : List Operation} (fixed : ∀ s, .setSettings s ∈ history → s.heapImageDir = dir)
    (hw : d.WritesImages capture history) :
    (d.after capture history).Tracks start dir (d.shows capture history ++ earlier) := by
  induction history generalizing d earlier with
  | nil => exact h
  | cons op later ih =>
    have hstep := h.perform hs (fun s he => fixed s (by simp [he])) hw.1
    have hrun := ih hstep (fun s hmem => fixed s (List.mem_cons_of_mem _ hmem)) hw.2
    rw [← List.append_assoc] at hrun
    exact hrun

theorem tracks_initial (settings : Settings) (disk : Disk) :
    Tracks disk settings.heapImageDir [] { settings, disk } := by
  refine ⟨rfl, fun place doc hdoc => ?_, .inl ⟨rfl, fun _ => rfl⟩⟩
  simp at hdoc

theorem Tracks.image_iff (hs : Heap.NoImages start dir) (h : d.Tracks start dir earlier)
    {uri : String} {doc : Document} {slot : Nat} {snapshot : Snapshot}
    (hdoc : d.document? uri = some doc) (hsnapshot : doc.session.store.get? slot = some snapshot) :
    ∃ place, d.place? uri = some place ∧ Show.lastAt place slot earlier = some snapshot ∧
      (Heap.FileHolds d.disk dir slot snapshot.image ↔
        Show.lastImage earlier slot = snapshot.image) := by
  obtain ⟨place, hplace, hdoc⟩ := Option.bind_eq_some_iff.mp hdoc
  have hslot : slot < Heap.slotCount := Heap.Store.lt_of_get? hsnapshot
  have hfile := h.files.fileHolds hs hslot
  refine ⟨place, hplace, (h.slots place doc hdoc).stored slot snapshot hsnapshot, ?_⟩
  constructor
  · exact fun hholds => hfile.unique hholds
  · exact fun heq => heq ▸ hfile

variable {settings : Settings} {disk : Disk} {history : List Operation}

theorem after_tracks
    (fixed : ∀ s, .setSettings s ∈ history → s.heapImageDir = settings.heapImageDir)
    (noImages : Heap.NoImages disk settings.heapImageDir)
    (writes : WritesImages capture { settings, disk } history) :
    (after capture { settings, disk } history).Tracks disk settings.heapImageDir
      (shows capture { settings, disk } history) := by
  have h := (tracks_initial settings disk).after noImages fixed writes
  rwa [List.append_nil] at h

/-- As long as only one document shows snapshots, and each with its image, a stored
snapshot has its own image beside it. -/
theorem own_image_of_one_document
    (fixed : ∀ s, .setSettings s ∈ history → s.heapImageDir = settings.heapImageDir)
    (noImages : Heap.NoImages disk settings.heapImageDir)
    (writes : WritesImages capture { settings, disk } history) {place : Nat}
    (hone : ∀ s ∈ shows capture { settings, disk } history, s.place = place)
    (himage : ∀ s ∈ shows capture { settings, disk } history, s.snapshot.image ≠ none)
    {uri : String} {doc : Document} {slot : Nat} {snapshot : Snapshot}
    (hdoc : (after capture { settings, disk } history).document? uri = some doc)
    (hsnapshot : doc.session.store.get? slot = some snapshot) :
    Heap.FileHolds (after capture { settings, disk } history).disk settings.heapImageDir slot
      snapshot.image := by
  have htracks := after_tracks fixed noImages writes
  obtain ⟨own, -, hlast, h⟩ := htracks.image_iff noImages hdoc hsnapshot
  have hown : own = place := by
    obtain ⟨s, hs, hplace⟩ := Show.mem_of_lastAt hlast
    rw [← hplace]
    exact hone s hs
  exact h.mpr (Show.lastImage_of_lastAt (hown ▸ hone) himage hlast)

/-- A stored snapshot is the one that its document showed last in its slot. The file of
the slot holds the image of that snapshot, or is missing if it has none, exactly if this
is the image written last for the slot by any document. -/
theorem image_beside_snapshot (capture : Heap.Capture) (settings : Settings) (disk : Disk)
    (history : List Operation)
    (fixed : ∀ s, .setSettings s ∈ history → s.heapImageDir = settings.heapImageDir)
    (noImages : Heap.NoImages disk settings.heapImageDir)
    (writes : WritesImages capture { settings, disk } history)
    {uri : String} {doc : Document} {slot : Nat} {snapshot : Snapshot}
    (hdoc : (after capture { settings, disk } history).document? uri = some doc)
    (hsnapshot : doc.session.store.get? slot = some snapshot) :
    ∃ place, (after capture { settings, disk } history).place? uri = some place ∧
      Show.lastAt place slot (shows capture { settings, disk } history) = some snapshot ∧
      (Heap.FileHolds (after capture { settings, disk } history).disk settings.heapImageDir slot
          snapshot.image ↔
        Show.lastImage (shows capture { settings, disk } history) slot = snapshot.image) :=
  (after_tracks fixed noImages writes).image_iff noImages hdoc hsnapshot

/-- Two states of which only the first is shown with its image. The third heap request
comes to the slot of the first one. -/
def overtakenImage : List Operation :=
  [.openFile "a.vpr",
    .complete "a.vpr" { steps := [{ isShown := true, heap := ["acc(x.f)"] },
      { isShown := true, parent := some 0, heap := ["acc(y.f)"] }] },
    .showHeap "a.vpr" 0 true, .showHeap "a.vpr" 1 false, .showHeap "a.vpr" 1 false]

/-- A snapshot without an image stands beside the image of an earlier one. -/
theorem overtakenImage_beside_snapshot :
    ∃ doc snapshot, (after Heap.capture { settings := { heapImageDir := "heap" } }
        overtakenImage).document? "a.vpr" = some doc ∧
      doc.session.store.get? 0 = some snapshot ∧ snapshot.image = none ∧
      ¬ Heap.FileHolds (after Heap.capture { settings := { heapImageDir := "heap" } }
        overtakenImage).disk "heap" 0 snapshot.image := by
  have hstored : ∃ doc snapshot, (after Heap.capture { settings := { heapImageDir := "heap" } }
      overtakenImage).document? "a.vpr" = some doc ∧
      doc.session.store.get? 0 = some snapshot ∧ snapshot.image = none := ⟨_, _, rfl, rfl, rfl⟩
  obtain ⟨doc, snapshot, hdoc, hsnapshot, himage⟩ := hstored
  obtain ⟨-, -, -, h⟩ := image_beside_snapshot Heap.capture { heapImageDir := "heap" } {}
    overtakenImage (fun s hs => by simp [overtakenImage] at hs) (by decide) (by decide)
    hdoc hsnapshot
  refine ⟨doc, snapshot, hdoc, hsnapshot, himage, fun hholds => ?_⟩
  have hlast := h.mp hholds
  rw [himage] at hlast
  exact absurd hlast (by decide)

end Debugger

end ProofStepper
