import Mathlib.Data.List.Find
import ProofStepper.Proofs.Json.Shape

/-!
# Which members of an object matter

The members of an object whose keys are no field names are not looked at, whether the object
is read as a record or refused. The order of the others decides at most which of several
mismatches is reported. So an object that was written may be rearranged, loses nothing with
members that are as their defaults, and may gain any members that are no fields.
-/
namespace ProofStepper.Json

variable {key : String} {v : Json} {ms written defaults : Members}

theorem mem_of_find? (h : find? ms key = some v) : (key, v) ∈ ms := by
  obtain ⟨before, after, heq, -⟩ := List.lookup_eq_some_iff.mp h
  rw [heq]
  exact List.mem_append_right before List.mem_cons_self

theorem find?_eq_none_of_forall (h : ∀ w, (key, w) ∉ ms) : find? ms key = none := by
  cases hw : find? ms key with
  | none => rfl
  | some w => exact absurd (mem_of_find? hw) (h w)

namespace Shape
variable {s : Shape}

def HasField (s : Shape) (key : String) : Prop := ∃ f ∈ s.fields, f.name = key

instance (s : Shape) : DecidablePred s.HasField := fun key =>
  inferInstanceAs (Decidable (∃ f ∈ s.fields, f.name = key))

/-- The members that are fields of a record. -/
def known (s : Shape) (ms : Members) : Members := ms.filter fun m => s.HasField m.1

theorem find?_known (hkey : s.HasField key) (ms : Members) :
    find? (s.known ms) key = find? ms key := by
  induction ms with
  | nil => rfl
  | cons m rest ih =>
    obtain ⟨other, v⟩ := m
    by_cases hother : s.HasField other
    · rw [known, List.filter_cons_of_pos (by simpa using hother), find?_cons, find?_cons]
      exact if_congr Iff.rfl rfl ih
    · have hne : key ≠ other := fun he => hother (he ▸ hkey)
      rw [known, List.filter_cons_of_neg (by simpa using hother), find?_cons, if_neg hne]
      exact ih

theorem checkMembers_known (s : Shape) (seen : List String) (ms : Members) :
    checkMembers s.fields seen (s.known ms) = checkMembers s.fields seen ms := by
  induction ms generalizing seen with
  | nil => rfl
  | cons m rest ih =>
    obtain ⟨key, v⟩ := m
    by_cases hkey : s.HasField key
    · rw [known, List.filter_cons_of_pos (by simpa using hkey), checkMembers, checkMembers]
      split
      · exact ih seen
      · rename_i f _
        split
        · rfl
        · cases f.check v with
          | error e => rfl
          | ok => exact ih (key :: seen)
    · have hnone : (s.fields.find? fun f => f.name = key) = none :=
        List.find?_eq_none.mpr fun f hf he => hkey ⟨f, hf, by simpa using he⟩
      rw [known, List.filter_cons_of_neg (by simpa using hkey), checkMembers, hnone]
      exact ih seen

theorem missing?_known (s : Shape) (ms : Members) :
    missing? s.fields (s.known ms) = missing? s.fields ms := by
  refine List.find?_congr fun f hf => ?_
  rw [find?_known ⟨f, hf, rfl⟩]

theorem members_obj_eq (s : Shape) (ms : Members) :
    s.members (.obj ms) = .ok ms ∨ ∃ e, s.members (.obj ms) = .error e := by
  simp only [members]
  split
  · exact .inr ⟨_, rfl⟩
  · split
    · exact .inr ⟨_, rfl⟩
    · exact .inl rfl

/-- An object is taken or refused for its members that are fields. -/
theorem members_known (s : Shape) (ms : Members) :
    s.members (.obj (s.known ms)) = (s.members (.obj ms)).map s.known := by
  simp only [members, checkMembers_known, missing?_known]
  split
  · rfl
  · split <;> rfl

end Shape

/-- Members of an object in any order, without some of those that are among the defaults. -/
def Rearranges (ms written defaults : Members) : Prop :=
  ∃ kept : Members, kept.Sublist written ∧ (∀ m ∈ written, m ∈ kept ∨ m ∈ defaults) ∧ ms.Perm kept

/-- The same, with any further members that are no fields in between. -/
def Shape.Loosens (s : Shape) (ms written defaults : Members) : Prop :=
  ∃ kept extra : Members, kept.Sublist written ∧ (∀ m ∈ written, m ∈ kept ∨ m ∈ defaults) ∧
    (∀ m ∈ extra, ¬ s.HasField m.1) ∧ ms.Perm (kept ++ extra)

theorem Shape.Loosens.rearranges {s : Shape} (h : s.Loosens ms written defaults)
    (hwritten : ∀ m ∈ written, s.HasField m.1) : Rearranges (s.known ms) written defaults := by
  obtain ⟨kept, extra, hkept, hcover, hextra, hperm⟩ := h
  refine ⟨kept, hkept, hcover, ?_⟩
  have hall : s.known kept = kept :=
    List.filter_eq_self.mpr fun m hm => decide_eq_true (hwritten m (hkept.subset hm))
  have hnone : s.known extra = [] :=
    List.filter_eq_nil_iff.mpr fun m hm => by simpa using hextra m hm
  have hknown : s.known (kept ++ extra) = kept := by
    rw [known, List.filter_append]
    change s.known kept ++ s.known extra = kept
    rw [hall, hnone, List.append_nil]
  exact hknown ▸ hperm.filter _

theorem Rearranges.keys_nodup (h : Rearranges ms written defaults)
    (hkeys : (written.map Prod.fst).Nodup) : (ms.map Prod.fst).Nodup := by
  obtain ⟨kept, hkept, -, hperm⟩ := h
  exact (hperm.map Prod.fst).nodup_iff.mpr (hkeys.sublist (hkept.map Prod.fst))

/-- A key that was written is found with its value, or it is missing and has its default. -/
theorem Rearranges.find?_cases (h : Rearranges ms written defaults)
    (hkeys : (written.map Prod.fst).Nodup) (key : String) :
    find? ms key = find? written key ∨
      find? ms key = none ∧ ∃ v, find? written key = some v ∧ (key, v) ∈ defaults := by
  have hown := h.keys_nodup hkeys
  obtain ⟨kept, hkept, hcover, hperm⟩ := h
  have hsub : ∀ w, (key, w) ∈ ms → find? written key = some w := fun w hw =>
    find?_of_mem hkeys (hkept.subset (hperm.mem_iff.mp hw))
  cases hv : find? written key with
  | none =>
    left
    refine find?_eq_none_of_forall fun w hw => ?_
    rw [hsub w hw] at hv
    cases hv
  | some v =>
    by_cases hmem : (key, v) ∈ kept
    · exact .inl (find?_of_mem hown (hperm.mem_iff.mpr hmem))
    · refine .inr ⟨find?_eq_none_of_forall fun w hw => ?_, v, rfl, ?_⟩
      · obtain rfl := Option.some.inj (hv.symm.trans (hsub w hw))
        exact hmem (hperm.mem_iff.mp hw)
      · exact (hcover _ (mem_of_find? hv)).resolve_left hmem

section Fields
variable {α : Type} {read : Json → Reading α} {a default : α}

/-- A field that has to be there is read from the rearranged members as from the written
ones. -/
theorem Rearranges.field_eq (h : Rearranges ms written [])
    (hkeys : (written.map Prod.fst).Nodup) (key : String) (read : Json → Reading α) :
    field ms key read = field written key read := by
  rcases h.find?_cases hkeys key with hsame | ⟨-, v, -, hmem⟩
  · rw [field, field, hsame]
  · cases hmem

/-- So is a field with a default, provided that the default is what its missing member
would be read as. -/
theorem Rearranges.fieldOr_eq (h : Rearranges ms written defaults)
    (hkeys : (written.map Prod.fst).Nodup) (hdefaults : (defaults.map Prod.fst).Nodup)
    (hread : fieldOr written key read default = .ok a)
    (hdefault : fieldOr defaults key read default = .ok default) :
    fieldOr ms key read default = .ok a := by
  rcases h.find?_cases hkeys key with hsame | ⟨hnone, v, hv, hmem⟩
  · rw [fieldOr, hsame]
    exact hread
  · rw [fieldOr, hv] at hread
    rw [fieldOr, find?_of_mem hdefaults hmem] at hdefault
    rw [fieldOr, hnone, ← hread]
    exact hdefault.symm

theorem field_known {s : Shape} (hkey : s.HasField key) (ms : Members) (read : Json → Reading α) :
    field (s.known ms) key read = field ms key read := by
  rw [field, field, Shape.find?_known hkey]

theorem fieldOr_known {s : Shape} (hkey : s.HasField key) (ms : Members)
    (read : Json → Reading α) (default : α) :
    fieldOr (s.known ms) key read default = fieldOr ms key read default := by
  rw [fieldOr, fieldOr, Shape.find?_known hkey]

end Fields

end ProofStepper.Json
