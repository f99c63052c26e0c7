import ProofStepper.Proofs.Debugger.Pages
import ProofStepper.Proofs.Debugger.Resets

/-!
# Revisions along a history

While a document stays open its revision never falls, and each operation raises it by two
at most. Where it is the same at two points, so is the session, and with it the page, the
directory of the images being fixed. What only reads, what fails and what names another
document leaves the revision as it is. Nothing is assumed of the disk, which others may
change at any time, and nothing of the way to capture heaps.
-/
namespace ProofStepper

/-- An operation with what it meets at its time: the contents of the disk, and the way to
capture heaps. -/
structure Occasion where
  disk : Disk
  capture : Heap.Capture
  operation : Operation

/-- The operations that change no session. -/
inductive Operation.SparesSessions : Operation → Prop
  | trace (uri : String) (number : Nat) : SparesSessions (.trace uri number)
  | heapView (uri : String) : SparesSessions (.heapView uri)
  | heapRevision (uri : String) : SparesSessions (.heapRevision uri)
  | heapPage (uri : String) : SparesSessions (.heapPage uri)
  | diagnostics (uri : String) : SparesSessions (.diagnostics uri)
  | resetDiagnostics (uri : String) : SparesSessions (.resetDiagnostics uri)

/-- No operation raises the revision of a document by more than two. -/
theorem Document.Effect.revision_le {capture : Heap.Capture} {op : Operation}
    {doc doc' : Document} (h : doc.Effect capture op doc') :
    doc'.session.revision ≤ doc.session.revision + 2 := by
  cases h with
  | close => exact Nat.le_add_right _ _
  | start => exact Nat.le_succ _
  | complete => exact le_rfl
  | trace => exact Nat.le_add_right _ _
  | «show» _ _ _ hpush =>
    rw [(Heap.Session.pushed_of_push hpush).revision]
    exact Nat.le_succ _
  | resetDiagnostics => exact Nat.le_add_right _ _
  | resetState => exact Nat.le_succ _
  | stop => exact Nat.le_succ _

namespace Operation.Turns
variable {capture : Heap.Capture} {uri : String} {op : Operation} {doc? doc?' : Option Document}

theorem precedes {doc doc' : Document} (h : op.Turns capture uri (some doc) (some doc')) :
    doc.session.Precedes doc'.session := by
  cases h with
  | opened => exact .refl _
  | changed _ _ he => exact he.precedes
  | kept => exact .refl _

theorem revision_le (h : op.Turns capture uri doc? doc?') :
    doc?'.elim 0 (·.session.revision) ≤ doc?.elim 0 (·.session.revision) + 2 := by
  cases h with
  | opened => cases doc? <;> exact Nat.le_add_right _ _
  | closed => exact Nat.zero_le _
  | absent => exact Nat.zero_le _
  | changed _ _ he => exact he.revision_le
  | kept => exact Nat.le_add_right _ _

theorem session_eq (h : op.Turns capture uri doc? doc?') (hop : op.SparesSessions) :
    doc?'.map (·.session) = doc?.map (·.session) := by
  cases h with
  | opened => cases hop
  | closed => cases hop
  | absent => rfl
  | changed _ _ he => cases hop <;> cases he <;> rfl
  | kept => rfl

end Operation.Turns

namespace Debugger
variable {d : Debugger} {uri : String} {o : Occasion}

/-- An operation as it takes place. -/
def serve (d : Debugger) (o : Occasion) : Reply Debugger Answer :=
  { d with disk := o.disk }.perform o.capture o.operation

/-- The debugger after the first occasions of a history. -/
def point (d : Debugger) (history : List Occasion) (k : Nat) : Debugger :=
  (history.take k).foldl (fun d o => (d.serve o).state) d

/-- The occasions that leave the revision of a document as it is. -/
inductive LeavesRevision (uri : String) (d : Debugger) (o : Occasion) : Prop
  | reading : o.operation.SparesSessions → LeavesRevision uri d o
  | refused (other : String) (number : Nat) (image : Bool) :
      o.operation = .showHeap other number image → (d.serve o).answer = .flag false →
      LeavesRevision uri d o
  | elsewhere (other : String) : o.operation.uri? = some other → other ≠ uri →
      LeavesRevision uri d o

/-- From one point of a history to another one a document stays open and its images stay
in one directory. -/
structure Stays (uri : String) (d : Debugger) (history : List Occasion) (i j : Nat) : Prop where
  ordered : i ≤ j
  inside : j ≤ history.length
  isOpen : ∀ k ≤ j, i ≤ k → ((d.point history k).place? uri).isSome
  imageDir : ∀ k ≤ j, i ≤ k →
    (d.point history k).settings.heapImageDir = (d.point history i).settings.heapImageDir

/-- What the revisions of a uri tell in a history. -/
structure RevisionsTell (uri : String) (d : Debugger) (history : List Occasion) : Prop where
  /-- They fit into 64 bits. -/
  bounded : ∀ k, ∀ n ∈ (d.point history k).heapRevision? uri, n < UInt64.size
  /-- They do not fall while the document stays, and one of them stands for one page. -/
  staying : ∀ i j, d.Stays uri history i j → ∃ m n,
    (d.point history i).heapRevision? uri = some m ∧
    (d.point history j).heapRevision? uri = some n ∧ m ≤ n ∧
    (m = n → (d.point history i).heapPage uri = (d.point history j).heapPage uri)
  leaves : ∀ k o, history[k]? = some o → (d.point history k).LeavesRevision uri o →
    (d.point history (k + 1)).heapRevision? uri = (d.point history k).heapRevision? uri

variable {history : List Occasion} {i j k : Nat}

theorem Reachable.serve (h : d.Reachable) (o : Occasion) : (d.serve o).state.Reachable :=
  (h.disturbed o.disk).perform o.capture o.operation

theorem Reachable.point (h : d.Reachable) (history : List Occasion) (k : Nat) :
    (d.point history k).Reachable := by
  unfold Debugger.point
  generalize history.take k = past
  induction past generalizing d with
  | nil => exact h
  | cons o later ih => exact ih (h.serve o)

theorem point_succ (ho : history[k]? = some o) :
    d.point history (k + 1) = ((d.point history k).serve o).state := by
  rw [point, List.take_add_one, ho, Option.toList_some, List.foldl_append]
  rfl

theorem Reachable.turns_serve (h : d.Reachable) (o : Occasion) (uri : String) :
    o.operation.Turns o.capture uri (d.document? uri) ((d.serve o).state.document? uri) :=
  (h.disturbed o.disk).proper.turns_perform o.capture o.operation uri

theorem Proper.exists_document (h : d.Proper) (hopen : (d.place? uri).isSome) :
    ∃ doc, d.document? uri = some doc := by
  rw [← Option.isSome_iff_exists, Option.isSome_iff_ne_none, Ne, h.document?_eq_none_iff]
  exact Option.isSome_iff_ne_none.mp hopen

/-- Each operation adds two at most to the revision of the document that a uri has. -/
theorem Reachable.revision_point_le (h : d.Reachable) (history : List Occasion) (uri : String)
    (k : Nat) : ((d.point history k).document? uri).elim 0 (·.session.revision) ≤
      (d.document? uri).elim 0 (·.session.revision) + 2 * history.length := by
  have hlength : (history.take k).length ≤ history.length := List.length_take_le' k history
  unfold Debugger.point
  generalize history.take k = past at hlength ⊢
  refine le_trans ?_ (Nat.add_le_add_left (Nat.mul_le_mul_left 2 hlength) _)
  clear hlength
  induction past generalizing d with
  | nil => exact Nat.le_add_right _ _
  | cons o later ih =>
    have hlater := ih (h.serve o)
    have hstep := (h.turns_serve o uri).revision_le
    rw [List.foldl_cons, List.length_cons]
    omega

theorem Stays.before (h : d.Stays uri history i (j + 1)) (hij : i ≤ j) :
    d.Stays uri history i j where
  ordered := hij
  inside := (Nat.le_succ j).trans h.inside
  isOpen k hk := h.isOpen k (hk.trans (Nat.le_succ j))
  imageDir k hk := h.imageDir k (hk.trans (Nat.le_succ j))

/-- The session of a document that stays open precedes all its later states. -/
theorem Stays.precedes (hd : d.Reachable) (h : d.Stays uri history i j) : ∃ doc doc',
    (d.point history i).document? uri = some doc ∧
    (d.point history j).document? uri = some doc' ∧ doc.session.Precedes doc'.session := by
  obtain ⟨doc, hdoc⟩ := (hd.point history i).proper.exists_document (h.isOpen i h.ordered le_rfl)
  induction j, h.ordered using Nat.le_induction with
  | base => exact ⟨doc, doc, hdoc, hdoc, .refl _⟩
  | succ j hij ih =>
    obtain ⟨first, mid, hfirst, hmid, hprecedes⟩ := ih (h.before hij)
    have hj : j < history.length := h.inside
    have ho : history[j]? = some history[j] := List.getElem?_eq_getElem hj
    obtain ⟨last, hlast⟩ := (hd.point history (j + 1)).proper.exists_document
      (h.isOpen (j + 1) le_rfl h.ordered)
    have hturns := (hd.point history j).turns_serve history[j] uri
    rw [← point_succ ho, hmid, hlast] at hturns
    exact ⟨first, last, hfirst, hlast, hprecedes.trans hturns.precedes⟩

theorem Stays.one_page (hd : d.Reachable) (h : d.Stays uri history i j) : ∃ m n,
    (d.point history i).heapRevision? uri = some m ∧
    (d.point history j).heapRevision? uri = some n ∧ m ≤ n ∧
    (m = n → (d.point history i).heapPage uri = (d.point history j).heapPage uri) := by
  obtain ⟨doc, doc', hdoc, hdoc', hprecedes⟩ := h.precedes hd
  refine ⟨doc.session.revision, doc'.session.revision, ?_, ?_, hprecedes.le, fun he => ?_⟩
  · rw [heapRevision?, hdoc, Option.map_some]
  · rw [heapRevision?, hdoc', Option.map_some]
  · simp only [heapPage, hdoc, hdoc', hprecedes.same he, h.imageDir j le_rfl h.ordered]

theorem heapRevision?_eq_map_session (d : Debugger) (uri : String) :
    d.heapRevision? uri = ((d.document? uri).map (·.session)).map (·.revision) := by
  rw [heapRevision?, Option.map_map]
  rfl

/-- A heap request that fails leaves all documents as they are. -/
theorem Reachable.heapRevision?_of_refused (hd : d.Reachable) {other : String} {number : Nat}
    {image : Bool} (hop : o.operation = .showHeap other number image)
    (hanswer : (d.serve o).answer = .flag false) (uri : String) :
    (d.serve o).state.heapRevision? uri = d.heapRevision? uri := by
  have hready := (hd.disturbed o.disk).ready
  have hserve : d.serve o =
      let r := showHeap { d with disk := o.disk } o.capture other number image
      ⟨.flag r.answer, r.state, r.notices⟩ := by
    rw [Debugger.serve, hop]
    rfl
  rw [hserve] at hanswer ⊢
  rcases showHeap_splits hready o.capture other number image with
    ⟨-, ⟨disk, hstate⟩, -⟩ | ⟨hyes, -⟩
  · simp only [hstate]
    rfl
  · simp only [hyes] at hanswer
    cases hanswer

theorem LeavesRevision.heapRevision?_serve (hd : d.Reachable) (h : d.LeavesRevision uri o) :
    (d.serve o).state.heapRevision? uri = d.heapRevision? uri := by
  have hturns := hd.turns_serve o uri
  cases h with
  | reading hop =>
    rw [heapRevision?_eq_map_session, hturns.session_eq hop, ← heapRevision?_eq_map_session]
  | refused other number image hop hanswer => exact hd.heapRevision?_of_refused hop hanswer uri
  | elsewhere other hop hne =>
    have hnot : ¬ o.operation.Concerns uri := fun hconcerns => hne (hconcerns.named hop).symm
    rw [heapRevision?, heapRevision?, hturns.eq_of_not_concerns hnot]

/-- In every history of less than 2 ^ 63 operations the revision of a document that stays
open never falls, and it grows whenever the page changes, unless the images are moved. What
only reads, what fails and what names another document does not raise it. -/
theorem revisions_tell_pages (settings : Settings) (disk : Disk) (history : List Occasion)
    (few : history.length < Nat.pow 2 63) (uri : String) :
    RevisionsTell uri { settings, disk } history := by
  have hd : Reachable { settings, disk } := .initial settings disk
  refine ⟨fun k n hn => ?_, fun i j h => h.one_page hd, fun k o ho h => ?_⟩
  · have hle := hd.revision_point_le history uri k
    obtain ⟨doc, hdoc, rfl⟩ := Option.map_eq_some_iff.mp hn
    have hnone : document? { settings, disk } uri = none := rfl
    have hsize : UInt64.size = 2 * Nat.pow 2 63 := rfl
    rw [hdoc, hnone, Option.elim_some, Option.elim_none] at hle
    omega
  · rw [point_succ ho]
    exact h.heapRevision?_serve (hd.point history k)

/-- A document that gets a run of one state, whose heap is asked for twice, at first while
a file stands in the place of the directory of images. -/
def askedTwice : List Occasion :=
  [⟨{}, Heap.capture, .openFile "a.vpr"⟩,
    ⟨{}, Heap.capture, .complete "a.vpr" { steps := [Record.shown (.new 0 none)] }⟩,
    ⟨{ nodes := [(["heap"], .file (.text ""))] }, Heap.capture, .showHeap "a.vpr" 0 true⟩,
    ⟨{}, Heap.capture, .showHeap "a.vpr" 0 true⟩]

/-- The request that fails leaves the revision, and the one that is served raises it. -/
theorem revisions_tell_pages_askedTwice :
    askedTwice.length < Nat.pow 2 63 ∧
    Stays "a.vpr" { settings := { heapImageDir := "heap" } } askedTwice 2 4 ∧
    [2, 3, 4].map (fun k =>
      (point { settings := { heapImageDir := "heap" } } askedTwice k).heapRevision? "a.vpr") =
      [some 2, some 2, some 3] ∧
    RevisionsTell "a.vpr" { settings := { heapImageDir := "heap" } } askedTwice := by
  have hstays : Stays "a.vpr" { settings := { heapImageDir := "heap" } } askedTwice 2 4 :=
    ⟨by decide, by decide, by decide, by decide⟩
  exact ⟨by decide, hstays, by decide, revisions_tell_pages _ _ askedTwice (by decide) _⟩

end Debugger

end ProofStepper
