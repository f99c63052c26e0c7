import Mathlib.Data.Nat.Basic
import Mathlib.Order.Basic
import ProofStepper.Proofs.Debugger.Registry

/-!
# Documents along a history

A document keeps its place in every history, also once it was closed, and no other
document comes to that place. What single operations do to a document therefore adds up
along a history, and a uri found at one place twice has the same document both times.
-/
namespace ProofStepper.Debugger
variable {capture : Heap.Capture} {d e f : Debugger}

theorem place?_openFile (d : Debugger) (uri other : String) :
    (d.openFile uri).state.place? other =
      if other = uri then some ((d.place? other).getD d.documents.length)
      else d.place? other := by
  unfold openFile
  split
  · rename_i place hp
    split
    · rename_i he
      subst he
      rw [hp, Option.getD_some]
    · rfl
  · rename_i hp
    by_cases he : other = uri
    · subst he
      have hlookup : d.registry.lookup other = none := hp
      simp [place?, List.lookup_append, hlookup]
    · have hne : (other == uri) = false := by simpa using he
      simp only [place?, List.lookup_append, List.lookup_cons, hne, List.lookup_nil,
        Option.or_none, if_neg he]

theorem place?_closeFile (d : Debugger) (uri other : String) :
    (d.closeFile uri).state.place? other = if other = uri then none else d.place? other := by
  unfold closeFile
  split
  · rename_i hp
    split
    · rename_i he
      rw [he]
      exact hp
    · rfl
  · split
    · rename_i he
      subst he
      exact lookup_filter_self d.registry other
    · rename_i he
      exact lookup_filter_ne he

theorem place?_perform (capture : Heap.Capture) (d : Debugger) (op : Operation) (uri : String) :
    (d.perform capture op).state.place? uri =
      if op = .openFile uri then some ((d.place? uri).getD d.documents.length)
      else if op = .closeFile uri then none
      else d.place? uri := by
  by_cases hopen : ∃ u, op = .openFile u
  · obtain ⟨u, rfl⟩ := hopen
    simp only [perform, place?_openFile, Operation.openFile.injEq, eq_comm (a := u), reduceCtorEq,
      if_false]
  · by_cases hclose : ∃ u, op = .closeFile u
    · obtain ⟨u, rfl⟩ := hclose
      simp only [perform, place?_closeFile, Operation.closeFile.injEq, eq_comm (a := u),
        reduceCtorEq, if_false]
    · have hkept := (perform_frame capture d op).registry (by simpa using hopen)
        (by simpa using hclose)
      rw [if_neg fun he => hopen ⟨uri, he⟩, if_neg fun he => hclose ⟨uri, he⟩]
      exact congrArg (List.lookup uri) hkept

theorem Proper.after (h : d.Proper) (capture : Heap.Capture) (history : List Operation) :
    (d.after capture history).Proper := by
  induction history generalizing d with
  | nil => exact h
  | cons op later ih => exact ih (h.perform capture op)

/-- A place that belongs to a uri while it is open, and to no other one ever after. -/
structure Owns (d : Debugger) (uri : String) (place : Nat) : Prop where
  inside : place < d.documents.length
  alone : ∀ other, d.place? other = some place → other = uri

theorem Proper.owns (h : d.Proper) {uri : String} {place : Nat} (hp : d.place? uri = some place) :
    d.Owns uri place :=
  ⟨h.place_lt hp, fun _ ho => h.uri_unique ho hp⟩

/-- A uri that is opened gets a place that was never used. -/
theorem Owns.perform {uri : String} {place : Nat} (h : d.Owns uri place) (capture : Heap.Capture)
    (op : Operation) : (d.perform capture op).state.Owns uri place := by
  refine ⟨h.inside.trans_le (perform_frame capture d op).length, fun other ho => ?_⟩
  rw [place?_perform] at ho
  split at ho
  · cases hother : d.place? other with
    | none =>
      rw [hother] at ho
      exact absurd (Option.some.inj ho) h.inside.ne'
    | some own =>
      rw [hother] at ho
      exact h.alone other (hother.trans ho)
  · split at ho
    · cases ho
    · exact h.alone other ho

theorem Owns.after {uri : String} {place : Nat} (h : d.Owns uri place) (capture : Heap.Capture)
    (history : List Operation) : (d.after capture history).Owns uri place := by
  induction history generalizing d with
  | nil => exact h
  | cons op later ih => exact ih (h.perform capture op)

theorem getElem?_updateUri_of_ne {uri : String} {place : Nat} (h : d.place? uri ≠ some place)
    (change : Document → Document) :
    (d.updateUri uri change).documents[place]? = d.documents[place]? := by
  unfold updateUri
  split
  · rfl
  · rename_i own hown
    have hne : place ≠ own := fun he => h (he ▸ hown)
    rw [getElem?_update, if_neg hne]

/-- Every document of the one state is one of the other, at its place and related to
what it was. -/
def Evolves (R : Document → Document → Prop) (d e : Debugger) : Prop :=
  ∀ (place : Nat) old, d.documents[place]? = some old →
    ∃ new, e.documents[place]? = some new ∧ R old new

variable {R : Document → Document → Prop}

theorem Evolves.refl (hR : ∀ doc, R doc doc) (d : Debugger) : d.Evolves R d :=
  fun _ doc hdoc => ⟨doc, hdoc, hR doc⟩

theorem Evolves.trans (hR : ∀ {a b c}, R a b → R b c → R a c) (h : d.Evolves R e)
    (h' : e.Evolves R f) : d.Evolves R f := by
  intro place old hold
  obtain ⟨mid, hmid, hfirst⟩ := h place old hold
  obtain ⟨new, hnew, hsecond⟩ := h' place mid hmid
  exact ⟨new, hnew, hR hfirst hsecond⟩

/-- It is enough to look at the ways in which an operation changes one document. -/
theorem Evolves.perform (refl : ∀ doc, R doc doc) (trans : ∀ {a b c}, R a b → R b c → R a c)
    {op : Operation} (changed : ∀ doc doc', doc.Effect capture op doc' → R doc doc') :
    d.Evolves R (d.perform capture op).state := by
  have heach : (d.perform capture op).state.Each fun place doc =>
      ∀ old, d.documents[place]? = some old → R old doc := by
    refine Each.perform ?_ ?_ ?_
    · intro place doc hdoc old hold
      obtain rfl : doc = old := Option.some.inj (hdoc.symm.trans hold)
      exact refl doc
    · intro uri _ old hold
      simp at hold
    · intro place doc doc' heffect hdoc old hold
      exact trans (hdoc old hold) (changed doc doc' heffect)
  intro place old hold
  have hlt : place < (d.perform capture op).state.documents.length :=
    lt_of_lt_of_le (List.getElem?_eq_some_iff.mp hold).1 (perform_frame capture d op).length
  have hnew := List.getElem?_eq_getElem hlt
  exact ⟨_, hnew, heach place _ hnew old hold⟩

theorem Evolves.after (refl : ∀ doc, R doc doc) (trans : ∀ {a b c}, R a b → R b c → R a c)
    (changed : ∀ op doc doc', doc.Effect capture op doc' → R doc doc')
    (history : List Operation) : d.Evolves R (d.after capture history) := by
  induction history generalizing d with
  | nil => exact Evolves.refl refl d
  | cons op later ih => exact (Evolves.perform refl trans (changed op)).trans trans ih

end ProofStepper.Debugger
