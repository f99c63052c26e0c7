import ProofStepper.Json.Shape

/-!
# Reading records

An object whose keys are all different is read as a record exactly by its fields: each of
them has a member that fits, or no member and a default. Then every field can be read on
its own, wherever its member stands.
-/
namespace ProofStepper.Json

section Find
variable {key other : String} {value : Option Json} {v : Json} {front back ms : Members}

@[simp] theorem find?_nil : find? [] key = none := rfl

@[simp] theorem find?_cons :
    find? ((other, v) :: ms) key = if key = other then some v else find? ms key := by
  by_cases h : key = other
  · simp [find?, h]
  · have hne : (key == other) = false := by simpa using h
    simp only [find?, List.lookup_cons, hne, if_neg h]

@[simp] theorem find?_append :
    find? (front ++ back) key = (find? front key).or (find? back key) := by
  induction front with
  | nil => rfl
  | cons m rest ih =>
    obtain ⟨k, v⟩ := m
    rw [List.cons_append, find?_cons, find?_cons, ih]
    split <;> rfl

@[simp] theorem find?_optionalMember :
    find? (optionalMember other value) key = if key = other then value else none := by
  cases value <;> simp [optionalMember]

theorem find?_of_mem (hkeys : (ms.map Prod.fst).Nodup) (hmem : (key, v) ∈ ms) :
    find? ms key = some v := by
  induction ms with
  | nil => cases hmem
  | cons m rest ih =>
    obtain ⟨k, w⟩ := m
    rw [List.map_cons, List.nodup_cons] at hkeys
    rw [find?_cons]
    rcases List.mem_cons.mp hmem with heq | hrest
    · cases heq
      rw [if_pos rfl]
    · have hne : key ≠ k := fun he => hkeys.1 (List.mem_map.mpr ⟨(key, v), hrest, he⟩)
      rw [if_neg hne, ih hkeys.2 hrest]

end Find

variable {α : Type} {name : String} {read : Json → Reading α} {a default : α} {ms : Members}

/-- The field has a member that fits, or no member and a default. -/
def Field.FitsIn (f : Field) (ms : Members) : Prop :=
  match find? ms f.name with
  | none => f.hasDefault = true
  | some v => f.check v = .ok ()

theorem Field.fitsIn_required (h : field ms name read = .ok a) :
    (Field.required name read).FitsIn ms := by
  cases hv : find? ms name with
  | none => simp [field, hv] at h
  | some v =>
    have hread : read v = .ok a := by simpa [field, hv] using h
    simp [FitsIn, Field.required, hv, hread, Except.map]

theorem Field.fitsIn_withDefault (h : fieldOr ms name read default = .ok a) :
    (Field.withDefault name read).FitsIn ms := by
  cases hv : find? ms name with
  | none => simp [FitsIn, Field.withDefault, hv]
  | some v =>
    have hread : read v = .ok a := by simpa [fieldOr, hv] using h
    simp [FitsIn, Field.withDefault, hv, hread, Except.map]

namespace Shape

theorem checkMembers_ok {fields : List Field} {seen : List String}
    (hkeys : (ms.map Prod.fst).Nodup) (hseen : ∀ m ∈ ms, m.1 ∉ seen)
    (hfit : ∀ f ∈ fields, ∀ v, (f.name, v) ∈ ms → f.check v = .ok ()) :
    checkMembers fields seen ms = .ok () := by
  induction ms generalizing seen with
  | nil => rfl
  | cons m rest ih =>
    obtain ⟨key, v⟩ := m
    rw [List.map_cons, List.nodup_cons] at hkeys
    have hrest : ∀ f ∈ fields, ∀ v, (f.name, v) ∈ rest → f.check v = .ok () :=
      fun f hf v hv => hfit f hf v (List.mem_cons_of_mem _ hv)
    have hlater : ∀ m ∈ rest, m.1 ∉ seen := fun m hm => hseen m (List.mem_cons_of_mem _ hm)
    rw [checkMembers]
    split
    · exact ih hkeys.2 hlater hrest
    · rename_i f hf
      have hname : f.name = key := by simpa using List.find?_some hf
      rw [if_neg (hseen _ (List.mem_cons_self ..)),
        hfit f (List.mem_of_find?_eq_some hf) v (by simp [hname])]
      refine ih hkeys.2 (fun m hm => ?_) hrest
      have hne : m.1 ≠ key := fun he => hkeys.1 (List.mem_map.mpr ⟨m, hm, he⟩)
      simp [hne, hlater m hm]

/-- An object in which every field fits is read with all its members. -/
theorem members_obj {s : Shape} (hkeys : (ms.map Prod.fst).Nodup)
    (hfit : ∀ f ∈ s.fields, f.FitsIn ms) : s.members (.obj ms) = .ok ms := by
  have hcheck : checkMembers s.fields [] ms = .ok () := by
    refine checkMembers_ok hkeys (fun _ _ => List.not_mem_nil) fun f hf v hv => ?_
    have hown := hfit f hf
    rwa [Field.FitsIn, find?_of_mem hkeys hv] at hown
  have hfull : missing? s.fields ms = none := by
    refine List.find?_eq_none.mpr fun f hf => ?_
    have hown := hfit f hf
    unfold Field.FitsIn at hown
    split at hown
    · simp [hown]
    · rename_i hv
      simp [hv]
  simp only [members, hcheck, hfull]

end Shape

section Written
variable {encode : α → Json} {v : Json} {n : Nat}

theorem field_of_find (hfind : find? ms name = some v) (hread : read v = .ok a) :
    field ms name read = .ok a := by
  simp only [field, hfind, hread]

theorem fieldOr_of_find (hfind : find? ms name = some v) (hread : read v = .ok a) :
    fieldOr ms name read default = .ok a := by
  simp only [fieldOr, hfind, hread]

theorem readNat_nat {r : IntRange} (h : r.contains n = true) : readNat r (.nat n) = .ok n := by
  simp [readNat, readInt, Json.nat, h, Except.map]

theorem readSize_nat (h : n < 18446744073709551616) : readSize (.nat n) = .ok n := by
  have hle : (n : Int) ≤ 18446744073709551615 := by omega
  exact readNat_nat (by simp [IntRange.contains, sizeRange, hle])

theorem readNat_word32 (h : n < 4294967296) : readNat word32 (.nat n) = .ok n := by
  have hle : (n : Int) ≤ 4294967295 := by omega
  exact readNat_nat (by simp [IntRange.contains, word32, hle])

theorem readOption_ofOption {o : Option α} (hnull : ∀ a, encode a ≠ .null)
    (h : ∀ a ∈ o, read (encode a) = .ok a) : readOption read (ofOption encode o) = .ok o := by
  cases o with
  | none => rfl
  | some a =>
    rw [ofOption, readOption]
    · rw [h a rfl]
      rfl
    · exact hnull a

theorem readList_map {as : List α} (h : ∀ a ∈ as, read (encode a) = .ok a) :
    readList read (.arr (as.map encode)) = .ok as := by
  rw [readList]
  induction as with
  | nil => rfl
  | cons a as ih =>
    rw [List.map_cons, readEach, h a List.mem_cons_self]
    simp only [ih fun b hb => h b (List.mem_cons_of_mem _ hb)]
    rfl

theorem readList_strings (texts : List String) : readList readString (.strings texts) = .ok texts :=
  readList_map fun _ _ => rfl

end Written

end ProofStepper.Json
