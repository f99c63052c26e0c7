import ProofStepper.Proofs.Debugger.Places
import ProofStepper.Proofs.Heap.Session

/-!
# Pages and their revisions

A page and its revision are read in two steps. The revision of a document never falls,
and it grows with every change of the session, so as long as the document is open one
revision stands for one page, the directory of the images being fixed. An answer made of
the page of an earlier state and the revision of a later one is therefore that of a single
state only if the page is still the same in the later one.
-/
namespace ProofStepper

/-- A later state of a session, which is another one only under a higher revision. -/
structure Heap.Session.Precedes (s t : Heap.Session) : Prop where
  le : s.revision ≤ t.revision
  same : s.revision = t.revision → s = t

namespace Heap.Session
variable {s t u : Heap.Session}

theorem Precedes.refl (s : Heap.Session) : s.Precedes s := ⟨le_rfl, fun _ => rfl⟩

theorem Precedes.trans (h : s.Precedes t) (h' : t.Precedes u) : s.Precedes u := by
  refine ⟨h.le.trans h'.le, fun he => ?_⟩
  have hst : s.revision = t.revision := le_antisymm h.le (he ▸ h'.le)
  have htu : t.revision = u.revision := hst.symm.trans he
  exact (h.same hst).trans (h'.same htu)

theorem Precedes.of_lt (h : s.revision < t.revision) : s.Precedes t :=
  ⟨h.le, fun he => absurd he h.ne⟩

end Heap.Session

/-- Whatever changes the session of a document raises its revision. -/
theorem Document.Effect.precedes {capture : Heap.Capture} {op : Operation} {doc doc' : Document}
    (h : doc.Effect capture op doc') : doc.session.Precedes doc'.session := by
  cases h with
  | close => exact .refl _
  | start => exact .of_lt (Nat.lt_succ_self _)
  | complete => exact .of_lt (Nat.lt_add_of_pos_right Nat.zero_lt_two)
  | trace => exact .refl _
  | «show» _ _ _ hpush =>
    refine .of_lt ?_
    rw [(Heap.Session.pushed_of_push hpush).revision]
    exact Nat.lt_succ_self _
  | resetDiagnostics => exact .refl _
  | resetState => exact .of_lt (Nat.lt_succ_self _)
  | stop => exact .of_lt (Nat.lt_succ_self _)

namespace Debugger
variable {capture : Heap.Capture} {d e : Debugger} {uri : String} {history : List Operation}

theorem precedes_after (capture : Heap.Capture) (d : Debugger) (history : List Operation) :
    d.Evolves (fun old new => old.session.Precedes new.session) (d.after capture history) := by
  refine Evolves.after ?_ ?_ ?_ history
  · exact fun doc => .refl doc.session
  · exact fun hfirst hsecond => hfirst.trans hsecond
  · exact fun op doc doc' heffect => heffect.precedes

theorem imageDir_after (capture : Heap.Capture) {dir : String}
    (hdir : d.settings.heapImageDir = dir)
    (fixed : ∀ s, .setSettings s ∈ history → s.heapImageDir = dir) :
    (d.after capture history).settings.heapImageDir = dir := by
  induction history generalizing d with
  | nil => exact hdir
  | cons op later ih =>
    have hstep : (d.perform capture op).state.settings.heapImageDir = dir := by
      by_cases hset : ∃ s, op = .setSettings s
      · obtain ⟨s, rfl⟩ := hset
        exact fixed s List.mem_cons_self
      · rw [(perform_frame capture d op).settings (by simpa using hset)]
        exact hdir
    exact ih hstep fun s hmem => fixed s (List.mem_cons_of_mem _ hmem)

theorem place?_after_of_open {place : Nat} (hp : d.place? uri = some place)
    (hclose : .closeFile uri ∉ history) :
    (d.after capture history).place? uri = some place := by
  induction history generalizing d with
  | nil => exact hp
  | cons op later ih =>
    have hne : op ≠ .closeFile uri := fun he => hclose (he ▸ List.mem_cons_self)
    have hstep : (d.perform capture op).state.place? uri = some place := by
      rw [place?_perform, hp, if_neg hne, Option.getD_some, ite_self]
    exact ih hstep fun hmem => hclose (List.mem_cons_of_mem _ hmem)

theorem place?_of_after {place : Nat} (hp : (d.after capture history).place? uri = some place)
    (hopen : .openFile uri ∉ history) : d.place? uri = some place := by
  induction history generalizing d with
  | nil => exact hp
  | cons op later ih =>
    have hne : op ≠ .openFile uri := fun he => hopen (he ▸ List.mem_cons_self)
    have hstep := ih hp fun hmem => hopen (List.mem_cons_of_mem _ hmem)
    rw [place?_perform, if_neg hne] at hstep
    split at hstep
    · cases hstep
    · exact hstep

theorem Proper.isSome_heapRevision? (h : d.Proper) :
    (d.heapRevision? uri).isSome = (d.place? uri).isSome := by
  cases hp : d.place? uri with
  | none => simp [heapRevision?, h.document?_eq_none_iff.mpr hp]
  | some place =>
    have hdoc := List.getElem?_eq_getElem (h.place_lt hp)
    simp [heapRevision?, document?, hp, hdoc]

/-- A uri that is not opened anew is of the same document whenever it has a revision. -/
theorem Proper.place?_eq (hd : d.Proper)
    (once : .closeFile uri ∉ history ∨ .openFile uri ∉ history)
    (hrevision : d.heapRevision? uri = (d.after capture history).heapRevision? uri) :
    d.place? uri = (d.after capture history).place? uri := by
  have hsome : (d.place? uri).isSome = ((d.after capture history).place? uri).isSome := by
    rw [← hd.isSome_heapRevision?, ← (hd.after capture history).isSome_heapRevision?, hrevision]
  cases hp : d.place? uri with
  | none =>
    rw [hp] at hsome
    exact (Option.isNone_iff_eq_none.mp (by simpa using hsome.symm)).symm
  | some place =>
    rcases once with hclose | hopen
    · exact (place?_after_of_open hp hclose).symm
    · rw [hp] at hsome
      obtain ⟨later, hlater⟩ := Option.isSome_iff_exists.mp hsome.symm
      rw [hlater, ← hp, place?_of_after hlater hopen]

/-- One revision of a document stands for one page. -/
theorem Proper.heapPage_eq (hd : d.Proper)
    (hplace : d.place? uri = (d.after capture history).place? uri)
    (hdir : d.settings.heapImageDir = (d.after capture history).settings.heapImageDir)
    (hrevision : d.heapRevision? uri = (d.after capture history).heapRevision? uri) :
    d.heapPage uri = (d.after capture history).heapPage uri := by
  cases hp : d.place? uri with
  | none =>
    have hnone : (d.after capture history).place? uri = none := hplace ▸ hp
    simp only [heapPage, document?, hp, hnone, Option.bind_none, hdir]
  | some place =>
    have hlater : (d.after capture history).place? uri = some place := hplace ▸ hp
    obtain ⟨new, hnew, hprecedes⟩ :=
      precedes_after capture d history place _ (List.getElem?_eq_getElem (hd.place_lt hp))
    simp only [heapRevision?, heapPage, document?, hp, hlater, Option.bind_some, hnew,
      List.getElem?_eq_getElem (hd.place_lt hp), Option.map_some, Option.some.injEq, hdir]
      at hrevision ⊢
    rw [hprecedes.same hrevision]

/-- The page of a document and its revision, both of one state. -/
def pageNow (d : Debugger) (uri : String) : String × Option Nat :=
  (d.heapPage uri, d.heapRevision? uri)

/-- A page and a revision between which other operations take place. -/
def pageAcross (capture : Heap.Capture) (d : Debugger) (uri : String)
    (between : List Operation) : String × Option Nat :=
  (d.heapPage uri, (d.after capture between).heapRevision? uri)

/-- When a page and a later revision are those of one of the states from the one to the
other. -/
structure PageAcross (capture : Heap.Capture) (d : Debugger) (uri : String)
    (between : List Operation) : Prop where
  /-- As long as the document and the directory are those of the last state. -/
  same_document_iff :
    (∃ k ≤ between.length,
      (d.after capture (between.take k)).place? uri = (d.after capture between).place? uri ∧
      (d.after capture (between.take k)).settings.heapImageDir =
        (d.after capture between).settings.heapImageDir ∧
      (d.after capture (between.take k)).pageNow uri = d.pageAcross capture uri between) ↔
    (d.after capture between).heapPage uri = d.heapPage uri
  /-- All states are such if the uri is not opened anew and the directory stays. -/
  one_state_iff :
    (∀ s, .setSettings s ∈ between → s.heapImageDir = d.settings.heapImageDir) →
    (.closeFile uri ∉ between ∨ .openFile uri ∉ between) →
    ((∃ k ≤ between.length,
      (d.after capture (between.take k)).pageNow uri = d.pageAcross capture uri between) ↔
    (d.after capture between).heapPage uri = d.heapPage uri)

theorem after_take_drop (capture : Heap.Capture) (d : Debugger) (history : List Operation)
    (k : Nat) :
    (d.after capture (history.take k)).after capture (history.drop k) =
      d.after capture history := by
  unfold after
  rw [← List.foldl_append, List.take_append_drop]

theorem Proper.pageAcross (hd : d.Proper) (capture : Heap.Capture) (uri : String)
    (between : List Operation) : d.PageAcross capture uri between := by
  have hpage : ∀ k,
      (d.after capture (between.take k)).place? uri = (d.after capture between).place? uri →
      (d.after capture (between.take k)).settings.heapImageDir =
        (d.after capture between).settings.heapImageDir →
      (d.after capture (between.take k)).pageNow uri = d.pageAcross capture uri between →
      (d.after capture between).heapPage uri = d.heapPage uri := by
    intro k hplace hdir hanswer
    obtain ⟨hshown, hrevision⟩ := Prod.mk.inj hanswer
    have hmid := hd.after capture (between.take k)
    rw [← after_take_drop capture d between k] at hplace hdir hrevision ⊢
    exact (hmid.heapPage_eq hplace hdir hrevision).symm.trans hshown
  have hlast : (d.after capture between).heapPage uri = d.heapPage uri →
      (d.after capture (between.take between.length)).pageNow uri =
        d.pageAcross capture uri between := by
    intro hsame
    rw [List.take_length]
    exact Prod.ext hsame rfl
  refine ⟨⟨?_, fun hsame => ?_⟩, fun fixed once => ⟨?_, fun hsame => ?_⟩⟩
  · rintro ⟨k, -, hplace, hdir, hanswer⟩
    exact hpage k hplace hdir hanswer
  · exact ⟨between.length, le_rfl, by rw [List.take_length], by rw [List.take_length],
      hlast hsame⟩
  · rintro ⟨k, -, hanswer⟩
    have hsplit := after_take_drop capture d between k
    refine hpage k ?_ ?_ hanswer
    · obtain ⟨-, hrevision⟩ := Prod.mk.inj hanswer
      rw [← hsplit] at hrevision ⊢
      refine (hd.after capture (between.take k)).place?_eq ?_ hrevision
      exact once.imp (fun h hmem => h (List.mem_of_mem_drop hmem))
        fun h hmem => h (List.mem_of_mem_drop hmem)
    · rw [imageDir_after capture rfl fixed]
      exact imageDir_after capture rfl fun s hmem => fixed s (List.mem_of_mem_take hmem)
  · exact ⟨between.length, le_rfl, hlast hsame⟩

/-- Whatever comes between a page and its revision, the two are those of one state exactly
if the page is the same in the last state, unless the uri was opened anew in between or
its images were moved. -/
theorem page_and_revision_of_one_state_iff (capture : Heap.Capture) (settings : Settings)
    (disk : Disk) (before between : List Operation) (uri : String) :
    (after capture { settings, disk } before).PageAcross capture uri between :=
  ((proper_initial settings disk).after capture before).pageAcross capture uri between

/-- A document with a run of one state. -/
def reported : List Operation :=
  [.openFile "a.vpr", .complete "a.vpr" { steps := [{ isShown := true }] }]

/-- Operations of four kinds that change what is shown of it. -/
def changes : List (List Operation) :=
  [[.showHeap "a.vpr" 0 false], [.start "a.vpr"], [.complete "a.vpr" {}], [.closeFile "a.vpr"]]

/-- Each of them leaves an answer that is of no state at all. -/
theorem page_beside_later_revision :
    ∀ between ∈ changes, ¬ ∃ k ≤ between.length,
      ((after Heap.capture {} reported).after Heap.capture (between.take k)).pageNow "a.vpr" =
        (after Heap.capture {} reported).pageAcross Heap.capture "a.vpr" between := by
  intro between hmem
  have hfixed : ∀ s, .setSettings s ∈ between →
      s.heapImageDir = (after Heap.capture {} reported).settings.heapImageDir := by
    intro s hset
    simp only [changes, List.mem_cons, List.not_mem_nil, or_false] at hmem
    rcases hmem with rfl | rfl | rfl | rfl <;> simp at hset
  have honce : ∀ between ∈ changes, Operation.openFile "a.vpr" ∉ between := by decide
  have hpage : ∀ between ∈ changes,
      ((after Heap.capture {} reported).after Heap.capture between).heapPage "a.vpr" ≠
        (after Heap.capture {} reported).heapPage "a.vpr" := by decide +kernel
  have hacross := page_and_revision_of_one_state_iff Heap.capture {} {} reported between "a.vpr"
  rw [hacross.one_state_iff hfixed (.inr (honce between hmem))]
  exact hpage between hmem

end Debugger

end ProofStepper
