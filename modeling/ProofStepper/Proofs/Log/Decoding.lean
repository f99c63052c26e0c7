import ProofStepper.Proofs.Json.Members
import ProofStepper.Proofs.Log.Records

/-!
# Records in any writing

A record is read from every object that holds its members, whatever their order, with or
without the members that are as in the empty record, and with any members beside them that
are no fields; the object of its position may be rearranged in the same way. Whatever a
record was read from, also from an array, it is written so that it is read as itself.
-/

namespace ProofStepper

open Json

namespace Json
variable {α β : Type} {ms : Members} {key : String} {v : Json} {n : Nat}

theorem bind_eq_ok_iff {x : Reading α} {f : α → Reading β} {b : β} :
    x >>= f = .ok b ↔ ∃ a, x = .ok a ∧ f a = .ok b := by
  cases x with
  | error e => simp [bind, Except.bind]
  | ok a => simp [bind, Except.bind]

/-- What is read from the members that are fields is read from all members. -/
theorem Shape.members_bind_known (s : Shape) {build : Members → Reading α}
    (hbuild : ∀ ms, build (s.known ms) = build ms) (ms : Members) :
    s.members (.obj (s.known ms)) >>= build = s.members (.obj ms) >>= build := by
  rw [s.members_known]
  rcases s.members_obj_eq ms with hok | ⟨e, herror⟩
  · rw [hok]
    exact hbuild ms
  · rw [herror]
    rfl

theorem fieldOr_eq_ok {read : Json → Reading α} {a default : α}
    (h : fieldOr ms key read default = .ok a) : a = default ∨ ∃ v, read v = .ok a := by
  unfold fieldOr at h
  split at h
  · exact .inl (Except.ok.inj h).symm
  · exact .inr ⟨_, h⟩

theorem exists_of_field {read : Json → Reading α} {a : α} (h : field ms key read = .ok a) :
    ∃ v, read v = .ok a := by
  unfold field at h
  split at h
  · cases h
  · exact ⟨_, h⟩

theorem le_of_readNat {r : IntRange} (hr : 0 ≤ r.least) (h : readNat r v = .ok n) :
    (n : Int) ≤ r.greatest := by
  cases v with
  | int m =>
    simp only [readNat, readInt] at h
    split at h
    · rename_i hm
      cases h
      simp only [IntRange.contains, Bool.and_eq_true, decide_eq_true_eq] at hm
      omega
    · cases h
  | _ => cases h

theorem lt_of_readSize (h : readSize v = .ok n) : n < 18446744073709551616 := by
  have hle : (n : Int) ≤ 18446744073709551615 := le_of_readNat (by decide) h
  omega

theorem lt_of_readNat_word32 (h : readNat word32 v = .ok n) : n < 4294967296 := by
  have hle : (n : Int) ≤ 4294967295 := le_of_readNat (by decide) h
  omega

theorem lt_of_readOption_readSize {o : Option Nat} (h : readOption readSize v = .ok o) :
    ∀ n ∈ o, n < 18446744073709551616 := by
  intro n hn
  unfold readOption at h
  split at h
  · cases h
    cases hn
  · cases hw : readSize v with
    | error e =>
      rw [hw] at h
      cases h
    | ok m =>
      rw [hw] at h
      cases h
      cases hn
      exact lt_of_readSize hw

end Json

namespace Position
variable {p : Position} {v : Json} {ms : Members}

/-- The members of a position that is written. -/
def written (p : Position) : Members := [("line", .nat p.line), ("character", .nat p.character)]

theorem ofJson_known (ms : Members) :
    Position.ofJson (.obj (shape.known ms)) = Position.ofJson (.obj ms) := by
  refine shape.members_bind_known (fun ms => ?_) ms
  simp (disch := decide) only [field_known]

theorem ofJson_of_rearranges (h : p.Fits) (hms : Rearranges ms p.written []) :
    Position.ofJson (.obj ms) = .ok p := by
  have hkeys : (p.written.map Prod.fst).Nodup := by simp [written]
  have hline : field ms "line" (readNat word32) = .ok p.line := by
    rw [hms.field_eq hkeys]
    exact field_of_find (by simp [written]) (readNat_word32 h.1)
  have hcharacter : field ms "character" (readNat word32) = .ok p.character := by
    rw [hms.field_eq hkeys]
    exact field_of_find (by simp [written]) (readNat_word32 h.2)
  have hmembers : shape.members (.obj ms) = .ok ms := by
    refine Shape.members_obj (hms.keys_nodup hkeys) ?_
    simp only [shape, List.forall_mem_cons]
    exact ⟨Field.fitsIn_required hline, Field.fitsIn_required hcharacter, List.forall_mem_nil _⟩
  simp only [Position.ofJson, hmembers, hline, hcharacter, bind, Except.bind, pure, Except.pure]

theorem ofJson_of_loosens (h : p.Fits) (hms : shape.Loosens ms p.written []) :
    Position.ofJson (.obj ms) = .ok p := by
  rw [← ofJson_known]
  refine ofJson_of_rearranges h (hms.rearranges ?_)
  simp only [written, List.forall_mem_cons]
  exact ⟨by decide, by decide, List.forall_mem_nil _⟩

theorem fits_of_ofJson (h : Position.ofJson v = .ok p) : p.Fits := by
  simp only [Position.ofJson, bind_eq_ok_iff] at h
  obtain ⟨ms, -, line, hline, character, hcharacter, hp⟩ := h
  cases hp
  obtain ⟨v, hv⟩ := exists_of_field hline
  obtain ⟨w, hw⟩ := exists_of_field hcharacter
  exact ⟨lt_of_readNat_word32 hv, lt_of_readNat_word32 hw⟩

end Position

namespace Record
variable {r : Record} {ms ms' : Members} {v : Json}

theorem ofJson_known (ms : Members) :
    Record.ofJson (.obj (shape.known ms)) = Record.ofJson (.obj ms) := by
  refine shape.members_bind_known (fun ms => ?_) ms
  simp (disch := decide) only [fieldOr_known]

/-- What is read as a record holds each of its fields, be it an object or an array. -/
theorem exists_heldBy_of_ofJson (h : Record.ofJson v = .ok r) : ∃ ms, r.HeldBy ms := by
  simp only [Record.ofJson, bind_eq_ok_iff] at h
  obtain ⟨ms, -, parent, hparent, isBranch, hbranch, isShown, hshown, verifiable, hverifiable,
    fileName, hfile, methodName, hname, methodType, htype, methodOffset, hoffset, position,
    hposition, formula, hformula, pathConditions, hconditions, store, hstore, heap, hheap, hr⟩ := h
  cases hr
  exact ⟨ms, hparent, hbranch, hshown, hverifiable, hfile, hname, htype, hoffset, hposition,
    hformula, hconditions, hstore, hheap⟩

theorem HeldBy.fits (h : r.HeldBy ms) : r.Fits where
  parent := by
    rcases fieldOr_eq_ok h.parent with hnone | ⟨v, hv⟩
    · rw [hnone]
      nofun
    · exact lt_of_readOption_readSize hv
  verifiable := by
    rcases fieldOr_eq_ok h.verifiable with hzero | ⟨v, hv⟩
    · omega
    · exact lt_of_readSize hv
  methodOffset := by
    rcases fieldOr_eq_ok h.methodOffset with hzero | ⟨v, hv⟩
    · omega
    · exact lt_of_readSize hv
  position := by
    rcases fieldOr_eq_ok h.position with hdefault | ⟨v, hv⟩
    · rw [hdefault]
      decide
    · exact Position.fits_of_ofJson hv

/-- The members of a record that is written, with a value of one's own for the position. -/
def writtenAt (r : Record) (place : Json) : Members :=
  r.written.map fun m => if m.1 = "position" then (m.1, place) else m

theorem map_fst_writtenAt (r : Record) (place : Json) :
    (r.writtenAt place).map Prod.fst = r.written.map Prod.fst := by
  rw [writtenAt, List.map_map]
  refine List.map_congr_left fun m _ => ?_
  simp only [Function.comp_apply]
  split <;> rfl

theorem heldBy_writtenAt (h : r.Fits) {place : Json}
    (hplace : Position.ofJson place = .ok r.position) : r.HeldBy (r.writtenAt place) := by
  have hwritten := heldBy_written h
  have hsame : ∀ key, key ≠ "position" → find? (r.writtenAt place) key = find? r.written key := by
    intro key hne
    simp [writtenAt, written, hne]
  constructor
  case position => exact fieldOr_of_find (by simp [writtenAt, written]) hplace
  all_goals
    rw [fieldOr, hsame _ (by decide)]
  exacts [hwritten.parent, hwritten.isBranch, hwritten.isShown, hwritten.verifiable,
    hwritten.fileName, hwritten.methodName, hwritten.methodType, hwritten.methodOffset,
    hwritten.formula, hwritten.pathConditions, hwritten.store, hwritten.heap]

theorem fits_empty : Fits {} := ⟨nofun, by decide, by decide, by decide⟩

/-- Rearranged members hold the record that the members held as they were written. -/
theorem HeldBy.rearranged {written : Members} (h : r.HeldBy written)
    (hkeys : (written.map Prod.fst).Nodup) (hms : Rearranges ms written (Record.written {})) :
    r.HeldBy ms := by
  have hempty := heldBy_written fits_empty
  have hdefaults : ((Record.written {}).map Prod.fst).Nodup := by simp [Record.written]
  exact ⟨hms.fieldOr_eq hkeys hdefaults h.parent hempty.parent,
    hms.fieldOr_eq hkeys hdefaults h.isBranch hempty.isBranch,
    hms.fieldOr_eq hkeys hdefaults h.isShown hempty.isShown,
    hms.fieldOr_eq hkeys hdefaults h.verifiable hempty.verifiable,
    hms.fieldOr_eq hkeys hdefaults h.fileName hempty.fileName,
    hms.fieldOr_eq hkeys hdefaults h.methodName hempty.methodName,
    hms.fieldOr_eq hkeys hdefaults h.methodType hempty.methodType,
    hms.fieldOr_eq hkeys hdefaults h.methodOffset hempty.methodOffset,
    hms.fieldOr_eq hkeys hdefaults h.position hempty.position,
    hms.fieldOr_eq hkeys hdefaults h.formula hempty.formula,
    hms.fieldOr_eq hkeys hdefaults h.pathConditions hempty.pathConditions,
    hms.fieldOr_eq hkeys hdefaults h.store hempty.store,
    hms.fieldOr_eq hkeys hdefaults h.heap hempty.heap⟩

theorem hasField_of_mem_writtenAt {place : Json} :
    ∀ m ∈ r.writtenAt place, shape.HasField m.1 := by
  intro m hm
  have hkey : m.1 ∈ r.written.map Prod.fst := map_fst_writtenAt r place ▸ List.mem_map_of_mem hm
  revert hkey
  generalize m.1 = key
  revert key
  simp only [written, List.map_cons, List.map_nil, List.forall_mem_cons]
  exact ⟨by decide, by decide, by decide, by decide, by decide, by decide, by decide, by decide,
    by decide, by decide, by decide, by decide, by decide, List.forall_mem_nil _⟩

theorem ofJson_of_loosens (h : r.Fits) {place : Json}
    (hplace : Position.ofJson place = .ok r.position)
    (hms : shape.Loosens ms (r.writtenAt place) (written {})) :
    Record.ofJson (.obj ms) = .ok r := by
  have hkeys : ((r.writtenAt place).map Prod.fst).Nodup := by
    rw [map_fst_writtenAt]
    simp [written]
  have hknown := hms.rearranges hasField_of_mem_writtenAt
  rw [← ofJson_known]
  exact ((heldBy_writtenAt h hplace).rearranged hkeys hknown).ofJson_obj (hknown.keys_nodup hkeys)

theorem fits_of_ofJson (h : Record.ofJson v = .ok r) : r.Fits :=
  let ⟨_, hms⟩ := exists_heldBy_of_ofJson h
  hms.fits

/-- Whether an object is a record, and which, depends on its members that are fields. A record
is read from all objects that loosen its written form, and from all that loosen the object of
its position within it. What was read from any value at all is written, in one line or spread,
as a text that is read as the same record. -/
theorem records_read_loosely :
    (∀ ms, Record.ofJson (.obj (shape.known ms)) = Record.ofJson (.obj ms)) ∧
    (∀ (r : Record) place ms, r.Fits → Position.shape.Loosens place r.position.written [] →
      shape.Loosens ms (r.writtenAt (.obj place)) (written {}) →
      Record.ofJson (.obj ms) = .ok r) ∧
    (∀ v r, Record.ofJson v = .ok r →
      Json.ofText (compact r.toJson) = .ok r.toJson ∧
      Json.ofText (spread r.toJson) = .ok r.toJson ∧ Record.ofJson r.toJson = .ok r) := by
  refine ⟨ofJson_known, fun r place ms hr hplace hms => ?_, fun v r hv => ?_⟩
  · exact ofJson_of_loosens hr (Position.ofJson_of_loosens hr.position hplace) hms
  · have hr := fits_of_ofJson hv
    have hlegible : Legible nestingLimit r.toJson := legible_toJson hr
    exact ⟨ofText_compact hlegible, ofText_spread hlegible, ofJson_toJson hr⟩

def childRecord : Record := { parent := some 7, position := ⟨3, 1⟩, heap := ["acc(x.f)"] }

/-- The members of its position backwards, after two that are no fields. -/
def loosePlace : Members :=
  [("column", .null), ("column", .bool true), ("character", .nat 1), ("line", .nat 3)]

/-- The members of the record backwards, with one that is as its default. -/
def looseMembers : Members :=
  [("note", .obj [("heap", .null)]), ("note", .arr []), ("heap", .strings ["acc(x.f)"]),
    ("position", .obj loosePlace), ("isBranch", .bool false), ("parent", .nat 7)]

set_option maxRecDepth 2000 in
theorem child_record_read_loosely :
    childRecord.Fits ∧ Position.shape.Loosens loosePlace childRecord.position.written [] ∧
    shape.Loosens looseMembers (childRecord.writtenAt (.obj loosePlace)) (written {}) ∧
    Record.ofJson (.obj looseMembers) = .ok childRecord ∧
    Record.ofJson (.arr [.nat 7, .bool true]) = .ok { parent := some 7, isBranch := true } ∧
    Record.ofJson (toJson { parent := some 7, isBranch := true }) =
      .ok { parent := some 7, isBranch := true } := by
  obtain ⟨-, hloose, hagain⟩ := records_read_loosely
  have hfits : childRecord.Fits :=
    ⟨fun n hn => Option.mem_some.mp hn ▸ by decide, by decide, by decide, by decide⟩
  have hplace : Position.shape.Loosens loosePlace childRecord.position.written [] := by
    refine ⟨childRecord.position.written, [("column", .bool true), ("column", .null)],
      .refl _, fun m hm => .inl hm, ?_, (List.reverse_perm _).symm⟩
    simp only [List.forall_mem_cons]
    exact ⟨by decide, by decide, List.forall_mem_nil _⟩
  have hmembers :
      shape.Loosens looseMembers (childRecord.writtenAt (.obj loosePlace)) (written {}) := by
    refine ⟨[("parent", .nat 7), ("isBranch", .bool false), ("position", .obj loosePlace),
        ("heap", .strings ["acc(x.f)"])], [("note", .arr []), ("note", .obj [("heap", .null)])],
      ?_, ?_, ?_, (List.reverse_perm _).symm⟩
    · exact .cons_cons _ <| .cons_cons _ <| .cons _ <| .cons _ <| .cons _ <| .cons _ <| .cons _ <|
        .cons _ <| .cons_cons _ <| .cons _ <| .cons _ <| .cons _ <| .cons_cons _ .slnil
    · simp [writtenAt, written, childRecord, ofOption]
    · simp only [List.forall_mem_cons]
      exact ⟨by decide, by decide, List.forall_mem_nil _⟩
  have hread : Record.ofJson (.arr [.nat 7, .bool true]) =
      .ok { parent := some 7, isBranch := true } := rfl
  exact ⟨hfits, hplace, hmembers, hloose _ _ _ hfits hplace hmembers, hread,
    (hagain _ _ hread).2.2⟩

end Record

end ProofStepper
