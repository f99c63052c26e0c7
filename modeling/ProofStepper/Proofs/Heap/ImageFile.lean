import ProofStepper.Heap.ImageFile
import ProofStepper.Heap.Store
import ProofStepper.Proofs.Disk.Growth

/-!
# What the image files hold

A directory of images has one file for each slot. Once one image was written, the
directory is there for good, and each file holds the image written last for its slot.
Until then no file is there, if there was none at the start.
-/
namespace ProofStepper.Heap

def imageName (slot : Nat) : String := s!"heap_{slot}.svg"

theorem lt_slotCount_iff {slot : Nat} : slot < slotCount ↔ slot = 0 ∨ slot = 1 := by
  unfold slotCount
  omega

theorem imageName_plain {slot : Nat} (h : slot < slotCount) : Path.Plain (imageName slot) := by
  rcases lt_slotCount_iff.mp h with rfl | rfl <;> constructor <;> decide

theorem imageName_inj {slot other : Nat} (h : slot < slotCount) (k : other < slotCount)
    (hn : imageName slot = imageName other) : slot = other := by
  rcases lt_slotCount_iff.mp h with rfl | rfl <;> rcases lt_slotCount_iff.mp k with rfl | rfl
  · rfl
  · exact absurd hn (by decide)
  · exact absurd hn (by decide)
  · rfl

/-- The images of two slots have their own files in a directory. -/
theorem append_imageName_ne {slot other : Nat} (h : slot < slotCount) (k : other < slotCount)
    (hne : other ≠ slot) (here : Location) :
    here ++ [imageName other] ≠ here ++ [imageName slot] := by
  intro he
  exact hne (imageName_inj k h (by simpa using he))

theorem goal_imagePath (d : Disk) (dir : String) {slot : Nat} (h : slot < slotCount) :
    d.goal (imagePath dir slot) =
      (d.locate dir).map fun here => .entry (here ++ [imageName slot]) false :=
  d.goal_join dir (imageName_plain h)

theorem locate_of_goal_imagePath {d : Disk} {dir : String} {slot : Nat} {l : Location}
    {slash : Bool} (h : slot < slotCount)
    (hg : d.goal (imagePath dir slot) = .ok (.entry l slash)) :
    ∃ here, d.locate dir = .ok here ∧ l = here ++ [imageName slot] := by
  rw [goal_imagePath d dir h] at hg
  cases hl : d.locate dir with
  | error e => simp [hl, Except.map] at hg
  | ok here =>
    simp only [hl, Except.map, Except.ok.injEq, Disk.Goal.entry.injEq] at hg
    exact ⟨here, rfl, hg.1.symm⟩

/-- A written image lies in the directory, which is made before it if need be. -/
theorem writeImage_ok {d later : Disk} {dir image : String} {slot : Nat} (h : slot < slotCount)
    (hw : writeImage d dir slot image = (later, .ok ())) :
    ∃ here, (d.makeDirectories dir).1.locate dir = .ok here ∧
      (d.makeDirectories dir).1.find? (here ++ [imageName slot]) ≠ some .directory ∧
      later = (d.makeDirectories dir).1.put (here ++ [imageName slot]) (.file (.text image)) := by
  unfold writeImage at hw
  generalize hm : d.makeDirectories dir = made at hw ⊢
  obtain ⟨m, e | ⟨⟩⟩ := made
  · cases hw
  rcases m.writeFile_cases (imagePath dir slot) (.text image) with
    ⟨e, hfile⟩ | ⟨l, left, outcome, hg, hf, hfile, hleft⟩
  · simp [hfile] at hw
  · obtain ⟨here, hl, rfl⟩ := locate_of_goal_imagePath h hg
    cases outcome with
    | error e => simp [hfile] at hw
    | ok =>
      rw [hleft rfl] at hfile
      simp only [hfile, Prod.mk.injEq, and_true] at hw
      exact ⟨here, hl, hf, hw.symm⟩

/-- The directory of images, made if need be, holds none. -/
def NoImages (d : Disk) (dir : String) : Prop :=
  ∀ slot < slotCount, (d.makeDirectories dir).1.exists? (imagePath dir slot) = false

instance (d : Disk) (dir : String) : Decidable (NoImages d dir) :=
  inferInstanceAs (Decidable (∀ slot < slotCount, _))

/-- The file of a slot holds an image, or there is no such file. -/
def FileHolds (d : Disk) (dir : String) (slot : Nat) : Option String → Prop
  | some image => d.read (imagePath dir slot) = some (.text image)
  | none => d.exists? (imagePath dir slot) = false

/-- An image that was written is what its file holds. -/
theorem fileHolds_of_writeImage {d later : Disk} {dir image : String} {slot : Nat}
    (h : slot < slotCount) (hw : writeImage d dir slot image = (later, .ok ())) :
    FileHolds later dir slot (some image) := by
  obtain ⟨here, hl, hf, rfl⟩ := writeImage_ok h hw
  have hlater := (Disk.keeps_put hf (.file (.text image))).locate hl
  have hfind := Disk.find?_put_self (Disk.not_isPrefixOf_cwd hf) (.file (.text image))
  simp [FileHolds, Disk.read, goal_imagePath _ dir h, hlater, hfind, Except.map]

/-- Whatever comes of writing an image, that of the other slot stays as it is. -/
theorem FileHolds.writeImage {d : Disk} {dir image shown : String} {slot other : Nat}
    (h : slot < slotCount) (k : other < slotCount) (hne : other ≠ slot)
    (hd : FileHolds d dir other (some shown)) :
    FileHolds (Heap.writeImage d dir slot image).1 dir other (some shown) := by
  obtain ⟨here, hl⟩ : ∃ here, d.locate dir = .ok here := by
    cases hl : d.locate dir with
    | error e => simp [FileHolds, Disk.read, goal_imagePath d dir k, hl, Except.map] at hd
    | ok here => exact ⟨here, rfl⟩
  simp only [Heap.writeImage, Disk.makeDirectories_of_locate hl]
  rcases d.writeFile_cases (imagePath dir slot) (.text image) with
    ⟨e, hfile⟩ | ⟨l, left, outcome, hg, hf, hfile, -⟩
  · simpa only [hfile] using hd
  · obtain ⟨near, hnear, rfl⟩ := locate_of_goal_imagePath h hg
    cases hl.symm.trans hnear
    have hnames := append_imageName_ne h k hne here
    have hput : FileHolds (d.put (here ++ [imageName slot]) (.file left)) dir other
        (some shown) := by
      simp only [FileHolds, Disk.read, goal_imagePath _ dir k, (Disk.keeps_put hf _).locate hl,
        hl, Except.map, Disk.find?_put_ne hnames] at hd ⊢
      exact hd
    cases outcome with
    | error e => simpa only [hfile] using hput
    | ok => simpa only [hfile] using hput

/-- The disk after some images were written, for each slot the last of them. -/
def Written (start d : Disk) (dir : String) (images : Nat → Option String) : Prop :=
  (d = start ∧ ∀ slot, images slot = none) ∨
  ∃ here, d.locate dir = .ok here ∧
    ∀ slot < slotCount, d.find? (here ++ [imageName slot]) =
      (images slot).map fun image => .file (.text image)

/-- The image of one slot after another one was written. -/
def withImage (images : Nat → Option String) (slot : Nat) (image : String) : Nat → Option String :=
  fun other => if other = slot then some image else images other

/-- Before the first image and after it alike, the directory once made has the files
that are told. -/
theorem Written.made {start d : Disk} {dir : String} {images : Nat → Option String}
    (hs : NoImages start dir) (h : Written start d dir images) {here : Location}
    (hl : (d.makeDirectories dir).1.locate dir = .ok here) :
    ∀ slot < slotCount, (d.makeDirectories dir).1.find? (here ++ [imageName slot]) =
      (images slot).map fun image => .file (.text image) := by
  rcases h with ⟨rfl, hnone⟩ | ⟨near, hnear, hfind⟩
  · intro slot hslot
    have hex := hs slot hslot
    rw [hnone slot]
    simp only [Disk.exists?, goal_imagePath _ dir hslot, hl, Except.map] at hex
    split at hex
    · cases hex
    · cases hex
    · assumption
  · rw [Disk.makeDirectories_of_locate hnear] at hl ⊢
    simp only [hnear, Except.ok.injEq] at hl
    subst hl
    exact hfind

theorem Written.writeImage {start d later : Disk} {dir image : String} {slot : Nat}
    {images : Nat → Option String} (hs : NoImages start dir) (h : Written start d dir images)
    (hslot : slot < slotCount) (hw : writeImage d dir slot image = (later, .ok ())) :
    Written start later dir (withImage images slot image) := by
  obtain ⟨here, hl, hf, rfl⟩ := writeImage_ok hslot hw
  refine .inr ⟨here, (Disk.keeps_put hf _).locate hl, fun other hother => ?_⟩
  unfold withImage
  by_cases ho : other = slot
  · rw [if_pos ho, ho, Disk.find?_put_self (Disk.not_isPrefixOf_cwd hf)]
    rfl
  · have hnames := append_imageName_ne hslot hother ho here
    rw [if_neg ho, Disk.find?_put_ne hnames]
    exact h.made hs hl other hother

theorem Written.fileHolds {start d : Disk} {dir : String} {images : Nat → Option String}
    (hs : NoImages start dir) (h : Written start d dir images) {slot : Nat}
    (hslot : slot < slotCount) : FileHolds d dir slot (images slot) := by
  have hgoal := goal_imagePath d dir hslot
  rcases h with ⟨rfl, hnone⟩ | ⟨here, hl, hfind⟩
  · rw [hnone slot, FileHolds]
    cases hl : d.locate dir with
    | error e => simp [Disk.exists?, hgoal, hl, Except.map]
    | ok here =>
      have hgrows := d.makeDirectories_grows dir
      have hmade : (d.makeDirectories dir).1.find? (here ++ [imageName slot]) = none :=
        (Written.made hs (.inl ⟨rfl, hnone⟩) (hgrows.keeps.locate hl) slot hslot).trans
          (by rw [hnone slot]; rfl)
      have hfind : d.find? (here ++ [imageName slot]) = none := by
        cases hf : d.find? (here ++ [imageName slot]) with
        | none => rfl
        | some n => rw [hgrows.found _ n hf] at hmade; cases hmade
      simp [Disk.exists?, hgoal, hl, hfind, Except.map]
  · have hf := hfind slot hslot
    cases hi : images slot with
    | none => simp [FileHolds, Disk.exists?, hgoal, hl, hf, hi, Except.map]
    | some image => simp [FileHolds, Disk.read, hgoal, hl, hf, hi, Except.map]

/-- A file holds one image or none. -/
theorem FileHolds.unique {d : Disk} {dir : String} {slot : Nat} {a b : Option String}
    (h : FileHolds d dir slot a) (k : FileHolds d dir slot b) : a = b := by
  cases a with
  | none =>
    cases b with
    | none => rfl
    | some j =>
      have hexists := Disk.exists?_of_read k
      rw [h] at hexists
      cases hexists
  | some i =>
    cases b with
    | none =>
      have hexists := Disk.exists?_of_read h
      rw [k] at hexists
      cases hexists
    | some j =>
      have hread : some (Content.text i) = some (.text j) := h.symm.trans k
      cases hread
      rfl

end ProofStepper.Heap
