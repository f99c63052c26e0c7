import ProofStepper.Log.Codec
import ProofStepper.Proofs.Json.Shape
import ProofStepper.Proofs.Json.Written

/-!
# Logs as JSON values

Positions, records, diagnostics and logs whose numbers fit their words are read from
their JSON values as they were. The values open few brackets and hold only whole numbers
that are read as whole, so that they are also read from their texts.
-/

namespace ProofStepper

open Json

theorem Json.Legible.nat {d n : Nat} (h : n < 18446744073709551616) : Legible d (.nat n) :=
  .int (by omega) (by omega)

theorem Json.Legible.strings {d : Nat} (texts : List String) :
    Legible (d + 1) (.strings texts) := by
  refine .arr fun v hv => ?_
  obtain ⟨text, -, rfl⟩ := List.mem_map.mp hv
  exact .str text

theorem Json.Legible.ofOption {α : Type} {encode : α → Json} {o : Option α} {d : Nat}
    (h : ∀ a ∈ o, Legible d (encode a)) : Legible d (.ofOption encode o) := by
  cases o with
  | none => exact .null
  | some a => exact h a rfl

/-- A build that checks its sums does not go beyond the last word. -/
theorem Build.next?_checked {n : Nat} (h : n < 4294967296) :
    checked.next? n.toUInt32 = if n = 4294967295 then none else some (n + 1).toUInt32 := by
  have hnext : n.toUInt32 + 1 = (n + 1).toUInt32 := UInt32.ofNat_add n 1 |>.symm
  have hzero : (n + 1).toUInt32 = 0 ↔ n = 4294967295 := by
    rw [← UInt32.toNat_inj]
    simp only [Nat.toUInt32_eq, UInt32.toNat_ofNat', UInt32.toNat_zero]
    omega
  simp only [next?, hnext, hzero]

namespace Position
variable {p : Position}

/-- Lines and characters are words of 32 bits. -/
def Fits (p : Position) : Prop := p.line < 4294967296 ∧ p.character < 4294967296

instance : DecidablePred Fits := fun p =>
  inferInstanceAs (Decidable (p.line < 4294967296 ∧ p.character < 4294967296))

theorem ofJson_toJson (h : p.Fits) : Position.ofJson p.toJson = .ok p := by
  let ms : Members := [("line", .nat p.line), ("character", .nat p.character)]
  have hline : field ms "line" (readNat word32) = .ok p.line :=
    field_of_find (by simp [ms]) (readNat_word32 h.1)
  have hcharacter : field ms "character" (readNat word32) = .ok p.character :=
    field_of_find (by simp [ms]) (readNat_word32 h.2)
  have hmembers : shape.members p.toJson = .ok ms := by
    refine Shape.members_obj (by simp) ?_
    simp only [shape, List.forall_mem_cons]
    exact ⟨Field.fitsIn_required hline, Field.fitsIn_required hcharacter, nofun⟩
  simp only [Position.ofJson, hmembers, hline, hcharacter, bind, Except.bind, pure, Except.pure]

theorem legible_toJson (h : p.Fits) {d : Nat} : Legible (d + 1) p.toJson := by
  have hline : Legible d (.nat p.line) := .nat (by have := h.1; omega)
  have hcharacter : Legible d (.nat p.character) := .nat (by have := h.2; omega)
  refine .obj ?_
  simp only [List.forall_mem_cons]
  exact ⟨hline, hcharacter, nofun⟩

theorem toString_toUInt32 {n : Nat} (h : n < 4294967296) : toString n.toUInt32 = toString n := by
  change toString n.toUInt32.toNat = _
  rw [Nat.toUInt32_eq, UInt32.toNat_ofNat_of_lt' h]

/-- Up to the last word a position is displayed as editors count. -/
theorem display?_checked (h : p.Fits) :
    p.display? .checked =
      if p.line = 4294967295 ∨ p.character = 4294967295 then none
      else some s!"{p.line + 1}:{p.character + 1}" := by
  obtain ⟨hline, hcharacter⟩ := h
  simp only [display?, Build.next?_checked hline, Build.next?_checked hcharacter]
  by_cases hl : p.line = 4294967295
  · simp [hl]
  by_cases hc : p.character = 4294967295
  · simp [hl, hc]
  have h₁ := toString_toUInt32 (show p.line + 1 < 4294967296 by omega)
  have h₂ := toString_toUInt32 (show p.character + 1 < 4294967296 by omega)
  rw [if_neg hl, if_neg hc, if_neg (by simp [hl, hc])]
  exact congrArg some (by rw [h₁, h₂])

/-- Every build that displays a position displays it alike. -/
theorem display_of_display? {b : Build} {text : String} (h : p.display? b = some text) :
    p.display = text := by
  have hnext : ∀ n m, b.next? n = some m → m = n + 1 := by
    intro n m hm
    cases b with
    | released => exact (Option.some.inj hm).symm
    | checked =>
      simp only [Build.next?] at hm
      split at hm
      · cases hm
      · exact (Option.some.inj hm).symm
  obtain ⟨line, hline, h⟩ := Option.bind_eq_some_iff.mp h
  obtain ⟨character, hcharacter, h⟩ := Option.bind_eq_some_iff.mp h
  cases h
  rw [hnext _ _ hline, hnext _ _ hcharacter]
  rfl

end Position

namespace Record
variable {r : Record} {ms : Members}

/-- Parents, verifiables and offsets are words of 64 bits. -/
structure Fits (r : Record) : Prop where
  parent : ∀ n ∈ r.parent, n < 18446744073709551616
  verifiable : r.verifiable < 18446744073709551616
  methodOffset : r.methodOffset < 18446744073709551616
  position : r.position.Fits

/-- Every field of the record is read from its member, or has no member and is the default. -/
structure HeldBy (r : Record) (ms : Members) : Prop where
  parent : fieldOr ms "parent" (readOption readSize) none = .ok r.parent
  isBranch : fieldOr ms "isBranch" readBool false = .ok r.isBranch
  isShown : fieldOr ms "canBeShownAsDecoration" readBool false = .ok r.isShown
  verifiable : fieldOr ms "verifiable" readSize 0 = .ok r.verifiable
  fileName : fieldOr ms "fileName" readString "" = .ok r.fileName
  methodName : fieldOr ms "methodName" readString "" = .ok r.methodName
  methodType : fieldOr ms "methodType" readString "" = .ok r.methodType
  methodOffset : fieldOr ms "methodOffset" readSize 0 = .ok r.methodOffset
  position : fieldOr ms "position" Position.ofJson {} = .ok r.position
  formula : fieldOr ms "formula" (readOption readString) none = .ok r.formula
  pathConditions : fieldOr ms "pathConditions" (readList readString) [] = .ok r.pathConditions
  store : fieldOr ms "store" (readList readString) [] = .ok r.store
  heap : fieldOr ms "heap" (readList readString) [] = .ok r.heap

theorem HeldBy.members (h : r.HeldBy ms) (hkeys : (ms.map Prod.fst).Nodup) :
    shape.members (.obj ms) = .ok ms := by
  refine Shape.members_obj hkeys ?_
  simp only [shape, List.forall_mem_cons]
  exact ⟨Field.fitsIn_withDefault h.parent, Field.fitsIn_withDefault h.isBranch,
    Field.fitsIn_withDefault h.isShown, Field.fitsIn_withDefault h.verifiable,
    Field.fitsIn_withDefault h.fileName, Field.fitsIn_withDefault h.methodName,
    Field.fitsIn_withDefault h.methodType, Field.fitsIn_withDefault h.methodOffset,
    Field.fitsIn_withDefault h.position, Field.fitsIn_withDefault h.formula,
    Field.fitsIn_withDefault h.pathConditions, Field.fitsIn_withDefault h.store,
    Field.fitsIn_withDefault h.heap, nofun⟩

theorem HeldBy.ofJson_obj (h : r.HeldBy ms) (hkeys : (ms.map Prod.fst).Nodup) :
    Record.ofJson (.obj ms) = .ok r := by
  simp only [Record.ofJson, h.members hkeys, h.parent, h.isBranch, h.isShown, h.verifiable,
    h.fileName, h.methodName, h.methodType, h.methodOffset, h.position, h.formula,
    h.pathConditions, h.store, h.heap, bind, Except.bind, pure, Except.pure]

/-- The members of a record that is written. -/
def written (r : Record) : Members :=
  [("parent", .ofOption .nat r.parent),
    ("isBranch", .bool r.isBranch),
    ("canBeShownAsDecoration", .bool r.isShown),
    ("verifiable", .nat r.verifiable),
    ("fileName", .str r.fileName),
    ("methodName", .str r.methodName),
    ("methodType", .str r.methodType),
    ("methodOffset", .nat r.methodOffset),
    ("position", r.position.toJson),
    ("formula", .ofOption .str r.formula),
    ("pathConditions", .strings r.pathConditions),
    ("store", .strings r.store),
    ("heap", .strings r.heap)]

theorem heldBy_written (h : r.Fits) : r.HeldBy r.written where
  parent := fieldOr_of_find (v := .ofOption .nat r.parent) (by simp [written])
    (readOption_ofOption (fun _ => nofun) fun n hn => readSize_nat (h.parent n hn))
  isBranch := fieldOr_of_find (v := .bool r.isBranch) (by simp [written]) rfl
  isShown := fieldOr_of_find (v := .bool r.isShown) (by simp [written]) rfl
  verifiable := fieldOr_of_find (by simp [written]) (readSize_nat h.verifiable)
  fileName := fieldOr_of_find (v := .str r.fileName) (by simp [written]) rfl
  methodName := fieldOr_of_find (v := .str r.methodName) (by simp [written]) rfl
  methodType := fieldOr_of_find (v := .str r.methodType) (by simp [written]) rfl
  methodOffset := fieldOr_of_find (by simp [written]) (readSize_nat h.methodOffset)
  position := fieldOr_of_find (by simp [written]) (Position.ofJson_toJson h.position)
  formula := fieldOr_of_find (v := .ofOption .str r.formula) (by simp [written])
    (readOption_ofOption (fun _ => nofun) fun _ _ => rfl)
  pathConditions := fieldOr_of_find (by simp [written]) (readList_strings r.pathConditions)
  store := fieldOr_of_find (by simp [written]) (readList_strings r.store)
  heap := fieldOr_of_find (by simp [written]) (readList_strings r.heap)

theorem ofJson_toJson (h : r.Fits) : Record.ofJson r.toJson = .ok r :=
  (heldBy_written h).ofJson_obj (by simp [written])

theorem legible_toJson (h : r.Fits) {d : Nat} : Legible (d + 2) r.toJson := by
  refine .obj ?_
  simp only [List.forall_mem_cons]
  exact ⟨.ofOption fun n hn => .nat (h.parent n hn), .bool _, .bool _, .nat h.verifiable, .str _,
    .str _, .str _, .nat h.methodOffset, Position.legible_toJson h.position,
    .ofOption fun _ _ => .str _, .strings _, .strings _, .strings _, nofun⟩

end Record

namespace Diagnostic
variable {d : Diagnostic}

theorem ofJson_toJson (h : d.position.Fits) : Diagnostic.ofJson d.toJson = .ok d := by
  let ms : Members := [("position", d.position.toJson), ("message", .str d.message)]
  have hposition : field ms "position" Position.ofJson = .ok d.position :=
    field_of_find (by simp [ms]) (Position.ofJson_toJson h)
  have hmessage : field ms "message" readString = .ok d.message :=
    field_of_find (v := .str d.message) (by simp [ms]) rfl
  have hmembers : shape.members d.toJson = .ok ms := by
    refine Shape.members_obj (by simp) ?_
    simp only [shape, List.forall_mem_cons]
    exact ⟨Field.fitsIn_required hposition, Field.fitsIn_required hmessage, nofun⟩
  simp only [Diagnostic.ofJson, hmembers, hposition, hmessage, bind, Except.bind, pure,
    Except.pure]

theorem legible_toJson (h : d.position.Fits) {n : Nat} : Legible (n + 2) d.toJson := by
  refine .obj ?_
  simp only [List.forall_mem_cons]
  exact ⟨Position.legible_toJson h, .str _, nofun⟩

end Diagnostic

namespace ProofLog
variable {log : ProofLog} {steps : List Record} {items : List Json}

structure Fits (log : ProofLog) : Prop where
  steps : ∀ r ∈ log.steps, r.Fits
  diagnostics : ∀ d ∈ log.diagnostics, d.position.Fits

theorem readList_stepsJson (h : ∀ r ∈ steps, r.Fits) :
    readList Record.ofJson (stepsJson steps) = .ok steps :=
  readList_map fun r hr => Record.ofJson_toJson (h r hr)

/-- A log is read from an object field by field. -/
theorem ofJson_obj {ms : Members} {diagnostics : List Diagnostic}
    (hkeys : (ms.map Prod.fst).Nodup)
    (hsteps : field ms "steps" (readList Record.ofJson) = .ok steps)
    (hdiagnostics : fieldOr ms "diagnostics" (readList Diagnostic.ofJson) [] = .ok diagnostics) :
    ProofLog.ofJson (.obj ms) = .ok { steps, diagnostics } := by
  have hmembers : shape.members (.obj ms) = .ok ms := by
    refine Shape.members_obj hkeys ?_
    simp only [shape, List.forall_mem_cons]
    exact ⟨Field.fitsIn_required hsteps, Field.fitsIn_withDefault hdiagnostics, nofun⟩
  simp only [ProofLog.ofJson, hmembers, hsteps, hdiagnostics, bind, Except.bind, pure,
    Except.pure]

theorem ofJson_toJson (h : log.Fits) : ProofLog.ofJson log.toJson = .ok log :=
  ofJson_obj (by simp) (field_of_find (by simp) (readList_stepsJson h.steps))
    (fieldOr_of_find (by simp)
      (readList_map fun d hd => Diagnostic.ofJson_toJson (h.diagnostics d hd)))

theorem legible_stepsJson (h : ∀ r ∈ steps, r.Fits) {d : Nat} :
    Legible (d + 3) (stepsJson steps) := by
  refine .arr fun v hv => ?_
  obtain ⟨r, hr, rfl⟩ := List.mem_map.mp hv
  exact Record.legible_toJson (h r hr)

theorem legible_toJson (h : log.Fits) {d : Nat} : Legible (d + 4) log.toJson := by
  have hdiagnostics : Legible (d + 3) (.arr (log.diagnostics.map Diagnostic.toJson)) := by
    refine .arr fun v hv => ?_
    obtain ⟨problem, hproblem, rfl⟩ := List.mem_map.mp hv
    exact Diagnostic.legible_toJson (h.diagnostics problem hproblem)
  refine .obj ?_
  simp only [List.forall_mem_cons]
  exact ⟨legible_stepsJson h.steps, hdiagnostics, nofun⟩

/-- An array of records is read as the log of these records. -/
theorem ofEitherForm_of_steps {v : Json} (h : readList Record.ofJson v = .ok steps) :
    ofEitherForm v = .ok { steps } := by
  simp only [ofEitherForm, h]

/-- An object is read in the second form. -/
theorem ofEitherForm_obj (ms : Members) (log : ProofLog) :
    ofEitherForm (.obj ms) = .ok log ↔ ProofLog.ofJson (.obj ms) = .ok log := by
  have hlist : readList Record.ofJson (.obj ms) = .error (.wrongType (.obj ms) "a sequence") := rfl
  rw [ofEitherForm, hlist]
  cases ProofLog.ofJson (.obj ms) <;> simp

end ProofLog

end ProofStepper
