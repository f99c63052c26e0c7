import Mathlib.Data.List.Nodup
import ProofStepper.Proofs.Debugger.Documents

/-!
# What an operation does to the document of a uri

Open documents have places of their own, so an operation that names one uri leaves the
documents of all others alone. For each operation a lemma says what becomes of the
document of any uri.
-/
namespace ProofStepper

/-- A trace that is refused leaves the task as it is. -/
theorem Task.trace_state_of_error {t : Task} {number : Nat} {style : TraceStyle}
    {e : Failure} (h : (t.trace number style).answer = .error e) :
    (t.trace number style).state = t := by
  unfold Task.trace at h ⊢
  split
  · rfl
  · split
    · rfl
    · rename_i hrun _ _ htrace
      simp [hrun, htrace] at h

theorem Task.trace_stored (t : Task) (number : Nat) (style : TraceStyle) :
    (t.trace number style).state.stored = t.stored := by
  unfold Task.trace
  split
  · rfl
  · split
    · rfl
    · unfold Task.keepTrace
      split <;> rfl

namespace Operation
variable {capture : Heap.Capture} {uri : String} {op : Operation}

/-- The uri that an operation names. -/
def uri? : Operation → Option String
  | .openFile uri | .closeFile uri | .start uri | .complete uri _ | .trace uri _
  | .showHeap uri _ _ | .heapView uri | .heapRevision uri | .heapPage uri
  | .diagnostics uri | .resetDiagnostics uri => some uri
  | .resetState | .stopDebugging | .setSettings _ => none

/-- An operation concerns the uri that it names, or each one if it names none. -/
def Concerns (uri : String) (op : Operation) : Prop := op.uri? = none ∨ op.uri? = some uri

instance (uri : String) : DecidablePred (Concerns uri) := fun op =>
  inferInstanceAs (Decidable (op.uri? = none ∨ op.uri? = some uri))

theorem Concerns.named (h : op.Concerns uri) {u : String} (hu : op.uri? = some u) : uri = u := by
  rcases h with hnone | hsome
  · rw [hu] at hnone
    cases hnone
  · exact Option.some.inj (hsome.symm.trans hu)

/-- An operation after which a uri has another document, or another run. -/
inductive Renews (uri : String) : Operation → Prop
  | openFile : Renews uri (.openFile uri)
  | closeFile : Renews uri (.closeFile uri)
  | start : Renews uri (.start uri)
  | complete (log : ProofLog) : Renews uri (.complete uri log)

theorem Renews.uri?_eq (h : op.Renews uri) : op.uri? = some uri := by
  cases h <;> rfl

/-- What an operation makes of the document of a uri, if there is one. -/
inductive Turns (capture : Heap.Capture) (uri : String) :
    Operation → Option Document → Option Document → Prop
  | opened (doc? : Option Document) :
      Turns capture uri (.openFile uri) doc? (some (doc?.getD { task := { uri } }))
  | closed (doc? : Option Document) : Turns capture uri (.closeFile uri) doc? none
  | absent {op : Operation} : op ≠ .openFile uri → Turns capture uri op none none
  | changed {op : Operation} {doc doc' : Document} : op ≠ .closeFile uri → op.Concerns uri →
      doc.Effect capture op doc' → Turns capture uri op (some doc) (some doc')
  | kept {op : Operation} (doc : Document) : ¬ op.Renews uri →
      Turns capture uri op (some doc) (some doc)

theorem Turns.of_not_renews {doc? : Option Document} (h : ¬ op.Renews uri) :
    op.Turns capture uri doc? doc? := by
  cases doc? with
  | none => exact .absent fun he => h (he ▸ .openFile)
  | some doc => exact .kept doc h

theorem Turns.of_uri?_ne {doc? : Option Document} {u : String} (hop : op.uri? = some u)
    (hne : uri ≠ u) : op.Turns capture uri doc? doc? := by
  apply Turns.of_not_renews
  intro hr
  exact hne (Option.some.inj (hr.uri?_eq.symm.trans hop))

theorem Turns.map {doc? : Option Document} {change : Document → Document}
    (hclose : op ≠ .closeFile uri) (hop : op.Concerns uri)
    (h : ∀ doc : Document, doc.Effect capture op (change doc)) :
    op.Turns capture uri doc? (doc?.map change) := by
  cases doc? with
  | none =>
    apply Turns.absent
    intro he
    subst he
    cases h default
  | some doc => exact .changed hclose hop (h doc)

end Operation

namespace Debugger
variable {capture : Heap.Capture} {d : Debugger} {uri other : String}

/-- Every open uri has a document, which it shares with no other one. -/
structure Proper (d : Debugger) : Prop where
  apart : (d.registry.map (·.2)).Nodup
  inside : ∀ e ∈ d.registry, e.2 < d.documents.length

theorem mem_registry_of_place? {place : Nat} (h : d.place? uri = some place) :
    (uri, place) ∈ d.registry := by
  obtain ⟨before, after, heq, -⟩ := List.lookup_eq_some_iff.mp h
  rw [heq]
  exact List.mem_append_right before List.mem_cons_self

theorem Proper.place_lt (h : d.Proper) {place : Nat} (hp : d.place? uri = some place) :
    place < d.documents.length :=
  h.inside _ (mem_registry_of_place? hp)

theorem Proper.uri_unique (h : d.Proper) {place : Nat} (hu : d.place? uri = some place)
    (ho : d.place? other = some place) : uri = other := by
  have heq := List.inj_on_of_nodup_map h.apart (mem_registry_of_place? hu)
    (mem_registry_of_place? ho) rfl
  exact congrArg Prod.fst heq

theorem Proper.document?_eq_none_iff (h : d.Proper) :
    d.document? uri = none ↔ d.place? uri = none := by
  cases hp : d.place? uri with
  | none => simp [document?, hp]
  | some place =>
    have hlt : place < d.documents.length := h.place_lt hp
    simp [document?, hp, hlt]

theorem update_congr {place : Nat} {change change' : Document → Document}
    (h : ∀ doc, d.documents[place]? = some doc → change doc = change' doc) :
    d.update place change = d.update place change' := by
  have hdocuments : d.documents.modify place change = d.documents.modify place change' := by
    apply List.ext_getElem?
    intro i
    simp only [List.getElem?_modify]
    by_cases hi : place = i
    · subst hi
      cases hdoc : d.documents[place]? with
      | none => rfl
      | some doc => simp [h doc hdoc]
    · simp [hi]
  simp only [update, hdocuments]

theorem update_eq_self {place : Nat} {change : Document → Document}
    (h : ∀ doc, d.documents[place]? = some doc → change doc = doc) : d.update place change = d := by
  rw [update_congr h]
  have hid : d.documents.modify place (fun doc => doc) = d.documents :=
    List.modify_id place d.documents
  simp only [update, hid]

theorem Proper.update (h : d.Proper) (place : Nat) (change : Document → Document) :
    (d.update place change).Proper :=
  ⟨h.apart, fun e he => by simpa [Debugger.update] using h.inside e he⟩

theorem document?_update_self {place : Nat} {change : Document → Document}
    (hp : d.place? uri = some place) :
    (d.update place change).document? uri = (d.document? uri).map change := by
  have hplace : (d.update place change).place? uri = some place := hp
  simp only [document?, hplace, hp, Option.bind_some, getElem?_update, if_true]

theorem document?_update_of_ne {place : Nat} {change : Document → Document}
    (hp : d.place? uri ≠ some place) : (d.update place change).document? uri = d.document? uri := by
  have hplace : (d.update place change).place? uri = d.place? uri := rfl
  cases hu : d.place? uri with
  | none => simp only [document?, hplace, hu, Option.bind_none]
  | some own =>
    have hne : own ≠ place := fun he => hp (by rw [hu, he])
    simp only [document?, hplace, hu, Option.bind_some, getElem?_update, if_neg hne]

theorem Proper.document?_updateUri (h : d.Proper) (uri other : String)
    (change : Document → Document) :
    (d.updateUri uri change).document? other =
      if other = uri then (d.document? other).map change else d.document? other := by
  unfold Debugger.updateUri
  split
  · rename_i hp
    split
    · rename_i he
      subst he
      simp [document?, hp]
    · rfl
  · rename_i place hp
    split
    · rename_i he
      subst he
      exact document?_update_self hp
    · rename_i hne
      exact document?_update_of_ne fun ho => hne (h.uri_unique ho hp)

/-- An update of all open documents comes to each of them once. -/
theorem document?_foldl_update (change : Document → Document) {places : List Nat}
    (h : places.Nodup) (d : Debugger) (uri : String) :
    (places.foldl (fun d place => d.update place change) d).document? uri =
      if ∃ place ∈ places, d.place? uri = some place then (d.document? uri).map change
      else d.document? uri := by
  induction places generalizing d with
  | nil => simp
  | cons place rest ih =>
    obtain ⟨hfirst, hrest⟩ := List.nodup_cons.mp h
    have hplace : (d.update place change).place? uri = d.place? uri := rfl
    rw [List.foldl_cons, ih hrest, hplace]
    by_cases hp : d.place? uri = some place
    · have hnot : ¬ ∃ p ∈ rest, d.place? uri = some p := by
        intro ⟨p, hmem, heq⟩
        rw [hp] at heq
        exact hfirst (Option.some.inj heq ▸ hmem)
      rw [if_neg hnot, if_pos ⟨place, List.mem_cons_self, hp⟩]
      exact document?_update_self hp
    · rw [document?_update_of_ne hp]
      simp only [List.mem_cons, exists_eq_or_imp, hp, false_or]

theorem Proper.document?_updateAll (h : d.Proper) (change : Document → Document) (uri : String) :
    (d.updateAll change).document? uri = (d.document? uri).map change := by
  have hfold : d.updateAll change =
      (d.registry.map (·.2)).foldl (fun d place => d.update place change) d := by
    rw [updateAll_eq, List.foldl_map]
  rw [hfold, document?_foldl_update change h.apart]
  split
  · rfl
  · rename_i hnone
    have hdoc : d.document? uri = none := by
      rw [h.document?_eq_none_iff]
      cases hp : d.place? uri with
      | none => rfl
      | some place =>
        exact absurd ⟨place, List.mem_map_of_mem (mem_registry_of_place? hp), hp⟩ hnone
    rw [hdoc]
    rfl

theorem lookup_filter_ne {entries : List (String × Nat)} (h : other ≠ uri) :
    (entries.filter fun e => e.1 ≠ uri).lookup other = entries.lookup other := by
  induction entries with
  | nil => rfl
  | cons e rest ih =>
    obtain ⟨key, place⟩ := e
    by_cases hkey : key = uri
    · have hne : (other == key) = false := by simpa [hkey] using h
      rw [List.filter_cons_of_neg (by simpa using hkey), ih, List.lookup_cons, hne]
    · rw [List.filter_cons_of_pos (by simpa using hkey), List.lookup_cons, List.lookup_cons, ih]

theorem lookup_filter_self (entries : List (String × Nat)) (uri : String) :
    (entries.filter fun e => e.1 ≠ uri).lookup uri = none := by
  rw [List.lookup_eq_none_iff]
  intro e he
  have hne : e.1 ≠ uri := by simpa using (List.mem_filter.mp he).2
  exact bne_iff_ne.mpr hne.symm

theorem Proper.openFile (h : d.Proper) (uri : String) : (d.openFile uri).state.Proper := by
  unfold Debugger.openFile
  split
  · exact h
  · refine ⟨?_, fun e he => ?_⟩
    · have hnew : d.documents.length ∉ d.registry.map (·.2) := by
        intro hmem
        obtain ⟨e, he, heq⟩ := List.mem_map.mp hmem
        have := h.inside e he
        omega
      simp only [List.map_append, List.map_cons, List.map_nil]
      exact List.nodup_append.mpr ⟨h.apart, by simp, fun p hp q hq => by
        rintro rfl
        rw [List.mem_singleton] at hq
        exact hnew (hq ▸ hp)⟩
    · rcases List.mem_append.mp he with he | he
      · have := h.inside e he
        simp only [List.length_append, List.length_singleton]
        omega
      · rw [List.mem_singleton] at he
        subst he
        simp

theorem Proper.document?_openFile (h : d.Proper) (uri other : String) :
    (d.openFile uri).state.document? other =
      if other = uri then some ((d.document? other).getD { task := { uri } })
      else d.document? other := by
  unfold Debugger.openFile
  split
  · rename_i place hp
    split
    · rename_i he
      subst he
      have hdoc : d.document? other ≠ none := by simp [h.document?_eq_none_iff, hp]
      obtain ⟨doc, hdoc⟩ := Option.ne_none_iff_exists'.mp hdoc
      simp [hdoc]
    · rfl
  · rename_i hp
    by_cases he : other = uri
    · subst he
      have hlookup : d.registry.lookup other = none := hp
      have hdoc : d.document? other = none := h.document?_eq_none_iff.mpr hp
      simp [document?, place?, List.lookup_append, hlookup] at hdoc ⊢
    · have hne : (other == uri) = false := by simpa using he
      simp only [document?, place?, List.lookup_append, List.lookup_cons, hne, List.lookup_nil,
        Option.or_none, if_neg he]
      cases ho : d.registry.lookup other with
      | none => rfl
      | some place =>
        have hlt := h.place_lt ho
        simp only [Option.bind_some, List.getElem?_append_left hlt]

theorem Proper.closeFile (h : d.Proper) (uri : String) : (d.closeFile uri).state.Proper := by
  unfold Debugger.closeFile
  split
  · exact h
  · rename_i place _
    have hupdate := h.update place fun doc => { doc with task := doc.task.resetDiagnostics }
    refine ⟨?_, fun e he => hupdate.inside e (List.mem_of_mem_filter he)⟩
    exact hupdate.apart.sublist (List.filter_sublist.map _)

theorem Proper.document?_closeFile (h : d.Proper) (uri other : String) :
    (d.closeFile uri).state.document? other = if other = uri then none else d.document? other := by
  unfold Debugger.closeFile
  split
  · rename_i hp
    split
    · rename_i he
      subst he
      exact h.document?_eq_none_iff.mpr hp
    · rfl
  · rename_i place hp
    split
    · rename_i he
      subst he
      simp only [document?, place?, lookup_filter_self, Option.bind_none]
    · rename_i he
      have hother : d.place? other ≠ some place := fun ho => he (h.uri_unique ho hp)
      have hkept : (d.update place fun doc =>
          { doc with task := doc.task.resetDiagnostics }).document? other = d.document? other :=
        document?_update_of_ne hother
      rw [← hkept]
      simp only [document?, place?, lookup_filter_ne he]

theorem start_state (d : Debugger) (uri : String) :
    (d.start uri).state = d.updateUri uri fun doc => ⟨doc.task.invalidate, doc.session.reset⟩ := by
  unfold start updateUri Debugger.place
  cases d.place? uri <;> rfl

theorem complete_state (d : Debugger) (uri : String) (log : ProofLog) :
    (d.complete uri log).state = d.updateUri uri fun doc =>
      ⟨doc.task.complete log, doc.session.reset.setInfo (logSummary log)⟩ := by
  unfold complete updateUri Debugger.place
  cases d.place? uri <;> rfl

theorem trace_state (d : Debugger) (uri : String) (number : Nat) :
    (d.trace uri number).state = d.updateUri uri fun doc =>
      { doc with task := (doc.task.trace number d.settings.traceStyle).state } := by
  have hpresent : ∀ place doc, d.place? uri = some place → d.documents[place]? = some doc →
      d.document uri = .ok doc := fun place doc hp hdoc => document_eq_ok_iff.mpr ⟨place, hp, hdoc⟩
  unfold updateUri trace
  cases hp : d.place? uri with
  | none => simp [document, document?, hp]
  | some place =>
    cases hdoc : d.document uri with
    | error e =>
      refine (update_eq_self fun doc hd => ?_).symm
      rw [hpresent place doc hp hd] at hdoc
      cases hdoc
    | ok doc =>
      have hsame : ∀ doc', d.documents[place]? = some doc' → doc' = doc := by
        intro doc' hd
        rw [hpresent place doc' hp hd] at hdoc
        exact Except.ok.inj hdoc
      dsimp only
      split
      · rename_i e hanswer
        refine (update_eq_self fun doc' hd => ?_).symm
        rw [hsame doc' hd, Task.trace_state_of_error hanswer]
      · simp only [updateUri, hp]
        exact update_congr fun doc' hd => by rw [hsame doc' hd]

/-- Storing a snapshot fails and changes no document, or it pushes the snapshot. -/
theorem storeHeap_outcome (d : Debugger) {ticket : HeapTicket} {doc : Document}
    (hdoc : d.documents[ticket.place]? = some doc) :
    (∃ disk e, d.storeHeap ticket = ({ d with disk }, .error e)) ∨
    ∃ session disk, doc.session.push ticket.snapshot = .ok session ∧
      d.storeHeap ticket =
        ({ d with disk }.update ticket.place fun doc => { doc with session }, .ok ()) := by
  have hpush : ∀ disk, d.storeHeap ticket = pushSnapshot { d with disk } ticket doc.session →
      (∃ disk e, d.storeHeap ticket = ({ d with disk }, .error e)) ∨
      ∃ session disk, doc.session.push ticket.snapshot = .ok session ∧
        d.storeHeap ticket =
          ({ d with disk }.update ticket.place fun doc => { doc with session }, .ok ()) := by
    intro disk hs
    rw [hs]
    unfold pushSnapshot
    split
    · rename_i e _
      exact .inl ⟨disk, e, rfl⟩
    · rename_i session hsession
      exact .inr ⟨session, disk, hsession, rfl⟩
  rcases d.storeHeap_cases hdoc with ⟨-, hs⟩ | ⟨i, disk, -, ⟨e, -, hs⟩ | ⟨-, hs⟩⟩
  · exact hpush d.disk hs
  · exact .inl ⟨disk, e, hs⟩
  · exact hpush disk hs

/-- A heap request that is refused changes no document. One that is served pushes the
snapshot of a step of the run stored now. -/
theorem showHeap_cases (d : Debugger) (capture : Heap.Capture) (uri : String) (number : Nat)
    (image : Bool) :
    (∃ disk, (d.showHeap capture uri number image).state = { d with disk }) ∨
    ∃ place doc run step snapshot session disk, d.place? uri = some place ∧
      d.documents[place]? = some doc ∧ doc.task.run? = some run ∧ run.step number = .ok step ∧
      capture step image = .ok snapshot ∧ doc.session.push snapshot = .ok session ∧
      (d.showHeap capture uri number image).state =
        { d with disk }.update place fun doc => { doc with session } := by
  rw [showHeap_state]
  cases hticket : d.takeHeap capture uri number image with
  | error e => exact .inl ⟨d.disk, rfl⟩
  | ok ticket =>
    obtain ⟨doc, run, step, hplace, hdoc, hrun, hstep, hsnapshot, -⟩ :=
      takeHeap_eq_ok_iff.mp hticket
    rcases d.storeHeap_outcome hdoc with ⟨disk, e, hs⟩ | ⟨session, disk, hsession, hs⟩
    · exact .inl ⟨disk, congrArg Prod.fst hs⟩
    · exact .inr ⟨ticket.place, doc, run, step, ticket.snapshot, session, disk, hplace, hdoc, hrun,
        hstep, hsnapshot, hsession, congrArg Prod.fst hs⟩

/-- What a heap request does to the document of a uri. -/
theorem Proper.document?_showHeap (h : d.Proper) (capture : Heap.Capture) (uri : String)
    (number : Nat) (image : Bool) (other : String) :
    (d.showHeap capture uri number image).state.document? other = d.document? other ∨
    ∃ doc run step snapshot session, other = uri ∧ d.document? uri = some doc ∧
      doc.task.run? = some run ∧ run.step number = .ok step ∧
      capture step image = .ok snapshot ∧ doc.session.push snapshot = .ok session ∧
      (d.showHeap capture uri number image).state.document? other = some { doc with session } := by
  rcases d.showHeap_cases capture uri number image with ⟨disk, hs⟩ |
    ⟨place, doc, run, step, snapshot, session, disk, hp, hdoc, hrun, hstep, hsnapshot, hsession, hs⟩
  · left
    rw [hs]
    rfl
  · have hp' : place? { d with disk } uri = some place := hp
    have hdoc' : d.document? uri = some doc := by simp only [document?, hp, Option.bind_some, hdoc]
    by_cases he : other = uri
    · subst he
      refine .inr ⟨doc, run, step, snapshot, session, rfl, hdoc', hrun, hstep, hsnapshot,
        hsession, ?_⟩
      have hsame : document? { d with disk } other = some doc := hdoc'
      rw [hs, document?_update_self hp', hsame, Option.map_some]
    · have hne : place? { d with disk } other ≠ some place := fun ho => he (h.uri_unique ho hp)
      left
      rw [hs, document?_update_of_ne hne]
      rfl

theorem perform_start_state (capture : Heap.Capture) (d : Debugger) (uri : String) :
    (d.perform capture (.start uri)).state = (d.start uri).state := by
  simp only [perform]
  split <;> rfl

theorem Proper.turns_updateUri (h : d.Proper) {op : Operation} {u : String}
    {change : Document → Document} (hop : op.uri? = some u) (hclose : op ≠ .closeFile u)
    (he : ∀ doc : Document, doc.Effect capture op (change doc)) (uri : String) :
    op.Turns capture uri (d.document? uri) ((d.updateUri u change).document? uri) := by
  rw [h.document?_updateUri]
  split
  · rename_i hu
    subst hu
    exact .map hclose (.inr hop) he
  · rename_i hne
    exact .of_uri?_ne hop hne

theorem Proper.turns_perform (h : d.Proper) (capture : Heap.Capture) (op : Operation)
    (uri : String) :
    op.Turns capture uri (d.document? uri) ((d.perform capture op).state.document? uri) := by
  cases op with
  | openFile u =>
    simp only [Debugger.perform, h.document?_openFile]
    split
    · rename_i hu
      subst hu
      exact .opened _
    · rename_i hne
      exact .of_uri?_ne rfl hne
  | closeFile u =>
    simp only [Debugger.perform, h.document?_closeFile]
    split
    · rename_i hu
      subst hu
      exact .closed _
    · rename_i hne
      exact .of_uri?_ne rfl hne
  | start u =>
    rw [perform_start_state, start_state]
    exact h.turns_updateUri rfl (by simp) (fun doc => .start doc) uri
  | complete u log =>
    simp only [Debugger.perform, complete_state]
    exact h.turns_updateUri rfl (by simp) (fun doc => .complete doc) uri
  | trace u number =>
    simp only [Debugger.perform, trace_state]
    exact h.turns_updateUri rfl (by simp) (fun doc => .trace doc _) uri
  | showHeap u number image =>
    simp only [Debugger.perform]
    rcases h.document?_showHeap capture u number image uri with hsame |
      ⟨doc, run, step, snapshot, session, rfl, hdoc, hrun, hstep, hsnapshot, hsession, hpushed⟩
    · rw [hsame]
      exact .of_not_renews fun hr => by cases hr
    · rw [hdoc, hpushed]
      exact .changed (by simp) (.inr rfl) (.show hrun hstep hsnapshot hsession)
  | resetDiagnostics u =>
    simp only [Debugger.perform, Debugger.resetDiagnostics]
    exact h.turns_updateUri rfl (by simp) (fun doc => .resetDiagnostics doc) uri
  | resetState =>
    simp only [Debugger.perform, Debugger.resetState, h.document?_updateAll]
    exact .map (by simp) (.inl rfl) (fun doc => .resetState doc)
  | stopDebugging =>
    simp only [Debugger.perform, Debugger.stopDebugging, h.document?_updateAll]
    exact .map (by simp) (.inl rfl) (fun doc => .stop doc)
  | heapView | heapRevision | heapPage | diagnostics | setSettings =>
    exact .of_not_renews fun hr => by cases hr

theorem Proper.perform (h : d.Proper) (capture : Heap.Capture) (op : Operation) :
    (d.perform capture op).state.Proper := by
  by_cases hopen : ∃ uri, op = .openFile uri
  · obtain ⟨uri, rfl⟩ := hopen
    exact h.openFile uri
  · by_cases hclose : ∃ uri, op = .closeFile uri
    · obtain ⟨uri, rfl⟩ := hclose
      exact h.closeFile uri
    · have hframe := perform_frame capture d op
      have hregistry := hframe.registry (by simpa using hopen) (by simpa using hclose)
      refine ⟨hregistry ▸ h.apart, fun e he => ?_⟩
      rw [hregistry] at he
      exact Nat.lt_of_lt_of_le (h.inside e he) hframe.length

theorem proper_initial (settings : Settings) (disk : Disk) : Proper { settings, disk } :=
  ⟨List.nodup_nil, fun e he => by cases he⟩

end Debugger

end ProofStepper
