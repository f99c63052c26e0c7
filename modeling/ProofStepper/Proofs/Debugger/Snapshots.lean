import ProofStepper.Proofs.Debugger.Places
import ProofStepper.Proofs.Heap.Session

/-!
# Of which run a snapshot is

A heap request takes its snapshot from the run that a document holds, and stores it in a
second step, which does not look at the run again. As long as no other operation comes
between the two, every stored snapshot is of the run that its document holds. If others
do, a run that was dropped or replaced meanwhile can be outlived by the one snapshot that
is under way, and by no other.
-/
namespace ProofStepper

namespace Document
variable {capture : Heap.Capture} {doc doc' : Document} {op : Operation}

/-- The run that the document holds has a step with this snapshot. -/
def Captures (doc : Document) (capture : Heap.Capture) (snapshot : Snapshot) : Prop :=
  ∃ run number step image, doc.task.run? = some run ∧ run.step number = .ok step ∧
    capture step image = .ok snapshot

/-- Every snapshot in a slot of the document is of the run that the document holds. -/
def Current (doc : Document) (capture : Heap.Capture) : Prop :=
  ∀ slot snapshot, doc.session.store.get? slot = some snapshot → doc.Captures capture snapshot

theorem Captures.congr {snapshot : Snapshot} (h : doc.Captures capture snapshot)
    (hstored : doc'.task.stored = doc.task.stored) : doc'.Captures capture snapshot := by
  obtain ⟨run, number, step, image, hrun, hstep, hsnapshot⟩ := h
  have hsame : doc'.task.run? = doc.task.run? := congrArg (Option.map StampedRun.run) hstored
  exact ⟨run, number, step, image, hsame.trans hrun, hstep, hsnapshot⟩

theorem current_of_empty (h : doc.session.store = {}) : doc.Current capture := by
  intro slot snapshot hs
  rw [h, Heap.Store.get?_empty] at hs
  cases hs

theorem Current.congr (h : doc.Current capture) (hstored : doc'.task.stored = doc.task.stored)
    (hstore : doc'.session.store = doc.session.store) : doc'.Current capture := by
  intro slot snapshot hs
  rw [hstore] at hs
  exact (h slot snapshot hs).congr hstored

/-- A push puts its snapshot into one slot and leaves the others. -/
theorem Current.captures_push (h : doc.Current capture) {snapshot : Snapshot}
    {session : Heap.Session} (hpush : doc.session.push snapshot = .ok session) {slot : Nat}
    {stored : Snapshot} (hs : session.store.get? slot = some stored) :
    doc.Captures capture stored ∨ stored = snapshot := by
  rw [(Heap.Session.pushed_of_push hpush).slots] at hs
  split at hs
  · exact .inr (Option.some.inj hs).symm
  · exact .inl (h slot stored hs)

theorem Current.push_iff (h : doc.Current capture) {snapshot : Snapshot} {session : Heap.Session}
    (hpush : doc.session.push snapshot = .ok session) :
    Current { doc with session } capture ↔ doc.Captures capture snapshot := by
  have hpushed := Heap.Session.pushed_of_push hpush
  constructor
  · intro hcurrent
    have hslot : session.store.get? doc.session.next = some snapshot := by
      rw [hpushed.slots, if_pos rfl]
    exact hcurrent _ snapshot hslot
  · intro hcaptures slot stored hs
    rcases h.captures_push hpush hs with hown | rfl
    · exact hown
    · exact hcaptures

/-- The run held changes by the start and the completion of a verification alone. -/
theorem Effect.stored (h : doc.Effect capture op doc') (hstart : ∀ uri, op ≠ .start uri)
    (hcomplete : ∀ uri log, op ≠ .complete uri log) : doc'.task.stored = doc.task.stored := by
  cases h with
  | close => rfl
  | start => exact absurd rfl (hstart _)
  | complete => exact absurd rfl (hcomplete _ _)
  | trace => exact doc.task.trace_stored _ _
  | «show» => rfl
  | resetDiagnostics => rfl
  | resetState => rfl
  | stop => rfl

/-- Wherever the run is dropped or replaced, the snapshots are dropped as well. -/
theorem Current.effect (h : doc.Current capture) (heffect : doc.Effect capture op doc') :
    doc'.Current capture := by
  cases heffect with
  | close => exact h.congr rfl rfl
  | start => exact current_of_empty rfl
  | complete => exact current_of_empty rfl
  | trace _ style => exact h.congr (doc.task.trace_stored _ style) rfl
  | «show» hrun hstep hsnapshot hpush =>
    exact (h.push_iff hpush).mpr ⟨_, _, _, _, hrun, hstep, hsnapshot⟩
  | resetDiagnostics => exact h.congr rfl rfl
  | resetState => exact current_of_empty rfl
  | stop => exact current_of_empty rfl

end Document

namespace Debugger
variable {capture : Heap.Capture} {d : Debugger} {uri : String} {place : Nat}

theorem Each.current_after (h : d.Each fun _ doc => doc.Current capture)
    (history : List Operation) :
    (d.after capture history).Each fun _ doc => doc.Current capture :=
  h.after (fun _ _ => Document.current_of_empty rfl) (fun _ _ _ _ he hdoc => hdoc.effect he) history

theorem current_after (capture : Heap.Capture) (settings : Settings) (disk : Disk)
    (history : List Operation) :
    (after capture { settings, disk } history).Each fun _ doc => doc.Current capture := by
  refine Each.current_after (fun place doc hdoc => ?_) history
  simp at hdoc

theorem Owns.stored_perform (h : d.Owns uri place) (capture : Heap.Capture) {op : Operation}
    (hstart : op ≠ .start uri) (hcomplete : ∀ log, op ≠ .complete uri log) {doc : Document}
    (hdoc : d.documents[place]? = some doc) :
    ∃ doc', (d.perform capture op).state.documents[place]? = some doc' ∧
      doc'.task.stored = doc.task.stored := by
  by_cases hs : ∃ u, op = .start u
  · obtain ⟨u, rfl⟩ := hs
    have hne : d.place? u ≠ some place := fun hu => hstart (congrArg _ (h.alone u hu))
    rw [perform_start_state, start_state, getElem?_updateUri_of_ne hne]
    exact ⟨doc, hdoc, rfl⟩
  · by_cases hc : ∃ u log, op = .complete u log
    · obtain ⟨u, log, rfl⟩ := hc
      have hne : d.place? u ≠ some place := by
        intro hu
        rw [h.alone u hu] at hcomplete
        exact hcomplete log rfl
      simp only [Debugger.perform, complete_state, getElem?_updateUri_of_ne hne]
      exact ⟨doc, hdoc, rfl⟩
    · have hevolves : d.Evolves (fun old new => new.task.stored = old.task.stored)
          (d.perform capture op).state := by
        refine Evolves.perform ?_ ?_ ?_
        · exact fun _ => rfl
        · exact fun hfirst hsecond => hsecond.trans hfirst
        · exact fun old new he => he.stored (by simpa using hs) (by simpa using hc)
      exact hevolves place doc hdoc

/-- A document holds its run as long as no verification of its uri starts or completes. -/
theorem Owns.stored_after (h : d.Owns uri place) (capture : Heap.Capture)
    {history : List Operation} (hstart : .start uri ∉ history)
    (hcomplete : ∀ log, .complete uri log ∉ history) {doc : Document}
    (hdoc : d.documents[place]? = some doc) :
    ∃ doc', (d.after capture history).documents[place]? = some doc' ∧
      doc'.task.stored = doc.task.stored := by
  induction history generalizing d doc with
  | nil => exact ⟨doc, hdoc, rfl⟩
  | cons op later ih =>
    obtain ⟨mid, hmid, hfirst⟩ := h.stored_perform capture
      (fun he => hstart (he ▸ List.mem_cons_self))
      (fun log he => hcomplete log (he ▸ List.mem_cons_self)) hdoc
    obtain ⟨doc', hdoc', hlater⟩ := ih (h.perform capture op)
      (fun hmem => hstart (List.mem_cons_of_mem _ hmem))
      (fun log hmem => hcomplete log (List.mem_cons_of_mem _ hmem)) hmid
    exact ⟨doc', hdoc', hlater.trans hfirst⟩

/-- A heap request between whose halves other operations take place. -/
def showHeapAcross (capture : Heap.Capture) (d : Debugger) (uri : String) (number : Nat)
    (image : Bool) (between : List Operation) : Debugger :=
  match d.takeHeap capture uri number image with
  | .error _ => d.after capture between
  | .ok ticket => ((d.after capture between).storeHeap ticket).1

theorem showHeapAcross_nil (d : Debugger) (capture : Heap.Capture) (uri : String) (number : Nat)
    (image : Bool) :
    d.showHeapAcross capture uri number image [] =
      (d.showHeap capture uri number image).state := by
  rw [showHeap_state]
  rfl

section Stored
variable {ticket : HeapTicket} {doc stored : Document}

/-- A document is as it was, the ticket's own one only after a failure, or it is the one to
which the snapshot came. -/
theorem storeHeap_document (hdoc : d.documents[ticket.place]? = some doc)
    (hstored : (d.storeHeap ticket).1.documents[place]? = some stored) :
    (d.documents[place]? = some stored ∧
      (place = ticket.place → (d.storeHeap ticket).2 ≠ .ok ())) ∨
    (place = ticket.place ∧ (d.storeHeap ticket).2 = .ok () ∧
      ∃ session, doc.session.push ticket.snapshot = .ok session ∧
        stored = { doc with session }) := by
  rcases d.storeHeap_outcome hdoc with ⟨disk, e, hs⟩ | ⟨session, disk, hpush, hs⟩
  · rw [hs] at hstored ⊢
    exact .inl ⟨hstored, fun _ => by simp⟩
  · rw [hs] at hstored ⊢
    simp only [getElem?_update] at hstored
    split at hstored
    · rename_i he
      subst he
      rw [hdoc] at hstored
      cases hstored
      exact .inr ⟨rfl, rfl, session, hpush, rfl⟩
    · rename_i hne
      exact .inl ⟨hstored, fun he => absurd he hne⟩

/-- Storing a snapshot leaves all current exactly if it fails or the snapshot is of the
run that the document holds by then. -/
theorem Each.current_storeHeap_iff (h : d.Each fun _ doc => doc.Current capture)
    (hdoc : d.documents[ticket.place]? = some doc)
    (hstored : (d.storeHeap ticket).1.documents[place]? = some stored) :
    stored.Current capture ↔
      (place = ticket.place → (d.storeHeap ticket).2 = .ok () →
        stored.Captures capture ticket.snapshot) := by
  rcases storeHeap_document hdoc hstored with ⟨hold, hfailed⟩ | ⟨he, hok, session, hpush, rfl⟩
  · exact iff_of_true (h place stored hold) fun he hok => absurd hok (hfailed he)
  · have hiff := (h _ doc hdoc).push_iff hpush
    exact ⟨fun hcurrent _ _ => hiff.mp hcurrent, fun hcaptures => hiff.mpr (hcaptures he hok)⟩

theorem Each.captures_storeHeap (h : d.Each fun _ doc => doc.Current capture)
    (hdoc : d.documents[ticket.place]? = some doc)
    (hstored : (d.storeHeap ticket).1.documents[place]? = some stored) {slot : Nat}
    {snapshot : Snapshot} (hs : stored.session.store.get? slot = some snapshot) :
    stored.Captures capture snapshot ∨ (place = ticket.place ∧ snapshot = ticket.snapshot) := by
  rcases storeHeap_document hdoc hstored with ⟨hold, -⟩ | ⟨he, -, session, hpush, rfl⟩
  · exact .inl (h place stored hold slot snapshot hs)
  · exact ((h _ doc hdoc).captures_push hpush hs).imp_right fun heq => ⟨he, heq⟩

theorem storeHeap_task (hdoc : d.documents[ticket.place]? = some doc)
    (hstored : (d.storeHeap ticket).1.documents[ticket.place]? = some stored) :
    stored.task = doc.task := by
  rcases storeHeap_document hdoc hstored with ⟨hold, -⟩ | ⟨-, -, session, -, rfl⟩
  · exact congrArg Document.task (Option.some.inj (hold.symm.trans hdoc))
  · rfl

/-- Storing a snapshot leaves the run as it was when the snapshot was taken, if no
verification of the uri has started or completed since. -/
theorem Owns.stored_across (h : d.Owns uri ticket.place) {between : List Operation}
    (hstart : .start uri ∉ between) (hcomplete : ∀ log, .complete uri log ∉ between)
    (hdoc : d.documents[ticket.place]? = some doc)
    (hstored : ((d.after capture between).storeHeap ticket).1.documents[ticket.place]? =
      some stored) :
    stored.task.stored = doc.task.stored := by
  obtain ⟨kept, hkept, hsame⟩ := h.stored_after capture hstart hcomplete hdoc
  exact (congrArg Task.stored (storeHeap_task hkept hstored)).trans hsame

end Stored

/-- What a heap request leaves if other operations come between its halves. -/
structure ShownAcross (capture : Heap.Capture) (d : Debugger) (uri : String) (number : Nat)
    (image : Bool) (between : List Operation) : Prop where
  /-- A document is current unless a snapshot came to it that is not of its run by then. -/
  current_iff : ∀ place doc,
    (d.showHeapAcross capture uri number image between).documents[place]? = some doc →
    (doc.Current capture ↔ ∀ ticket, d.takeHeap capture uri number image = .ok ticket →
      place = ticket.place → ((d.after capture between).storeHeap ticket).2 = .ok () →
      doc.Captures capture ticket.snapshot)
  /-- No other snapshot than the one under way can be of another run. -/
  foreign : ∀ place doc,
    (d.showHeapAcross capture uri number image between).documents[place]? = some doc →
    ∀ slot snapshot, doc.session.store.get? slot = some snapshot →
      doc.Captures capture snapshot ∨
      ∃ ticket, d.takeHeap capture uri number image = .ok ticket ∧ place = ticket.place ∧
        snapshot = ticket.snapshot
  /-- Without a start or a completion of a verification of the uri, the run held by then is
  the very one from which the snapshot was taken. -/
  same_run : .start uri ∉ between → (∀ log, .complete uri log ∉ between) →
    ∀ ticket asked doc, d.takeHeap capture uri number image = .ok ticket →
    d.documents[ticket.place]? = some asked →
    (d.showHeapAcross capture uri number image between).documents[ticket.place]? = some doc →
    doc.task.stored = asked.task.stored
  /-- So only these two can do harm. -/
  undisturbed : .start uri ∉ between → (∀ log, .complete uri log ∉ between) →
    (d.showHeapAcross capture uri number image between).Each fun _ doc => doc.Current capture

theorem showHeapAcross_of_refused {number : Nat} {image : Bool} {e : Failure}
    (h : d.takeHeap capture uri number image = .error e) (between : List Operation) :
    d.showHeapAcross capture uri number image between = d.after capture between := by
  simp only [showHeapAcross, h]

theorem showHeapAcross_of_ticket {number : Nat} {image : Bool} {ticket : HeapTicket}
    (h : d.takeHeap capture uri number image = .ok ticket) (between : List Operation) :
    d.showHeapAcross capture uri number image between =
      ((d.after capture between).storeHeap ticket).1 := by
  simp only [showHeapAcross, h]

/-- A request that is refused at once stores nothing. -/
theorem shownAcross_of_refused (hcurrent : d.Each fun _ doc => doc.Current capture) {number : Nat}
    {image : Bool} {e : Failure} (h : d.takeHeap capture uri number image = .error e)
    (between : List Operation) : d.ShownAcross capture uri number image between := by
  have hlater := hcurrent.current_after between
  refine ⟨fun place doc hdoc => ?_, fun place doc hdoc slot snapshot hs => ?_,
    fun _ _ ticket _ _ hticket _ _ => ?_, fun _ _ => ?_⟩
  · rw [showHeapAcross_of_refused h] at hdoc
    refine iff_of_true (hlater place doc hdoc) fun ticket hticket => ?_
    rw [h] at hticket
    cases hticket
  · rw [showHeapAcross_of_refused h] at hdoc
    exact .inl (hlater place doc hdoc slot snapshot hs)
  · rw [h] at hticket
    cases hticket
  · rw [showHeapAcross_of_refused h]
    exact hlater

theorem Proper.shownAcross_of_ticket (hd : d.Proper)
    (hcurrent : d.Each fun _ doc => doc.Current capture) {number : Nat} {image : Bool}
    {ticket : HeapTicket} (h : d.takeHeap capture uri number image = .ok ticket)
    (between : List Operation) : d.ShownAcross capture uri number image between := by
  obtain ⟨asked, run, step, hplace, hasked, hrun, hstep, hsnapshot, -⟩ :=
    takeHeap_eq_ok_iff.mp h
  have howns := hd.owns hplace
  have hlater := hcurrent.current_after between
  obtain ⟨doc, hdoc⟩ : ∃ doc, (d.after capture between).documents[ticket.place]? = some doc :=
    ⟨_, List.getElem?_eq_getElem (howns.after capture between).inside⟩
  refine ⟨fun place stored hstored => ?_, fun place stored hstored slot snapshot hs => ?_,
    fun hstart hcomplete given was stored hgiven hwas hstored => ?_, fun hstart hcomplete => ?_⟩
  · rw [showHeapAcross_of_ticket h] at hstored
    simp only [hlater.current_storeHeap_iff hdoc hstored, h, Except.ok.injEq, forall_eq']
  · rw [showHeapAcross_of_ticket h] at hstored
    exact (hlater.captures_storeHeap hdoc hstored hs).imp_right fun hown => ⟨ticket, h, hown⟩
  · obtain rfl : ticket = given := Except.ok.inj (h.symm.trans hgiven)
    obtain rfl : asked = was := Option.some.inj (hasked.symm.trans hwas)
    rw [showHeapAcross_of_ticket h] at hstored
    exact howns.stored_across hstart hcomplete hasked hstored
  · rw [showHeapAcross_of_ticket h]
    intro place stored hstored
    refine (hlater.current_storeHeap_iff hdoc hstored).mpr fun he _ => ?_
    have hgave : asked.Captures capture ticket.snapshot :=
      ⟨run, number, step, image, hrun, hstep, hsnapshot⟩
    subst he
    exact hgave.congr (howns.stored_across hstart hcomplete hasked hstored)

/-- Whatever comes between the halves of a heap request, every stored snapshot is of the
run that its document holds, the one under way excepted. That one makes a difference
exactly if it is stored although the run held by then has no step with it, for which a
verification of its uri must have started or completed in between. -/
theorem showHeapAcross_current_iff (capture : Heap.Capture) (settings : Settings) (disk : Disk)
    (before between : List Operation) (uri : String) (number : Nat) (image : Bool) :
    (after capture { settings, disk } before).ShownAcross capture uri number image between := by
  have hproper : (after capture { settings, disk } before).Proper :=
    (proper_initial settings disk).after capture before
  have hcurrent := current_after capture settings disk before
  cases hticket : (after capture { settings, disk } before).takeHeap capture uri number image with
  | error e => exact shownAcross_of_refused hcurrent hticket between
  | ok ticket => exact hproper.shownAcross_of_ticket hcurrent hticket between

/-- A document with a run of one state. -/
def verified : List Operation :=
  [.openFile "a.vpr", .complete "a.vpr" { steps := [{ isShown := true, methodName := "old" }] }]

/-- The records of another run of one state. -/
def replacement : List Record := [{ isShown := true, methodName := "new" }]

/-- A snapshot of the old run comes to a document that holds no run, or another one. -/
theorem snapshot_outlives_run :
    ∀ between ∈ [[.start "a.vpr"], [.complete "a.vpr" { steps := replacement }]], ∃ doc,
      ((after Heap.capture {} verified).showHeapAcross Heap.capture "a.vpr" 0 false
        between).document? "a.vpr" = some doc ∧ ¬ doc.Current Heap.capture := by
  intro between hmem
  have hstate : ∃ ticket doc,
      (after Heap.capture {} verified).takeHeap Heap.capture "a.vpr" 0 false = .ok ticket ∧
      ticket.place = 0 ∧ ticket.snapshot.methodName = "old" ∧
      (((after Heap.capture {} verified).after Heap.capture between).storeHeap ticket).2 =
        .ok () ∧
      ((after Heap.capture {} verified).showHeapAcross Heap.capture "a.vpr" 0 false
        between).place? "a.vpr" = some 0 ∧
      ((after Heap.capture {} verified).showHeapAcross Heap.capture "a.vpr" 0 false
        between).documents[0]? = some doc ∧
      (doc.task.run? = none ∨ doc.task.run? = some (Run.ofRecords replacement)) := by
    simp only [List.mem_cons, List.not_mem_nil, or_false] at hmem
    rcases hmem with rfl | rfl
    · exact ⟨_, _, rfl, rfl, rfl, rfl, rfl, rfl, .inl rfl⟩
    · exact ⟨_, _, rfl, rfl, rfl, rfl, rfl, rfl, .inr rfl⟩
  obtain ⟨ticket, doc, hticket, hplace, hname, hok, huri, hdoc, hrun⟩ := hstate
  refine ⟨doc, by simp only [document?, huri, Option.bind_some, hdoc], fun hcurrent => ?_⟩
  have hacross := showHeapAcross_current_iff Heap.capture {} {} verified between "a.vpr" 0 false
  obtain ⟨run, number, step, image, hheld, hstep, hsnapshot⟩ :=
    (hacross.current_iff 0 doc hdoc).mp hcurrent ticket hticket hplace.symm hok
  have hnew : run = Run.ofRecords replacement := by
    rcases hrun with hrun | hrun <;> rw [hrun] at hheld <;> cases hheld
    rfl
  subst hnew
  have hmethod : step.record.methodName = "new" := by
    cases number with
    | zero =>
      cases hstep
      rfl
    | succ n => cases hstep
  have hsame : (Heap.snapshotOf step image).methodName = ticket.snapshot.methodName :=
    congrArg Snapshot.methodName (Except.ok.inj hsnapshot)
  rw [hname] at hsame
  exact absurd (hmethod.symm.trans hsame) (by decide)

end Debugger

end ProofStepper
