import ProofStepper.Proofs.Json.Shape
import ProofStepper.Rpc.Server

/-!
# Messages that are written and read again

A member that is absent is not written, but one that is null is, and when it is read it
counts as absent. So a message is read as it was written exactly if none of its optional
members is null. A response with the result null, which two methods give, is read as a
response with neither a result nor an error.
-/
namespace ProofStepper.Rpc

open Json

/-- A value as it is read: absent where it is null. -/
def present : Option Json → Option Json
  | some .null => none
  | v => v

theorem present_eq_self_iff {v : Option Json} : present v = v ↔ v ≠ some .null := by
  cases v with
  | none => simp [present]
  | some v => cases v <;> simp [present]

theorem fieldOr_readPresent {ms : Members} {name : String} {v : Option Json}
    (h : find? ms name = v) : fieldOr ms name readPresent none = .ok (present v) := by
  cases v with
  | none => simp [fieldOr, h, present]
  | some v => cases v <;> simp [fieldOr, h, readPresent, readOption, present, Except.map]

theorem field_readString {ms : Members} {name text : String}
    (h : find? ms name = some (.str text)) : field ms name readString = .ok text := by
  simp [field, h, readString]

namespace Id
variable {id : Id}

/-- A number is a word of 64 bits. -/
def Fits : Id → Prop
  | number n => n < 18446744073709551616
  | string _ => True

instance : DecidablePred Fits
  | number n => inferInstanceAs (Decidable (n < 18446744073709551616))
  | string _ => inferInstanceAs (Decidable True)

theorem ofJson_toJson (h : id.Fits) : Id.ofJson id.toJson = .ok id := by
  cases id with
  | number n =>
    have hlt : n < 18446744073709551616 := h
    have hle : (n : Int) ≤ 18446744073709551615 := by omega
    have hrange : word64.contains n = true := by simp [IntRange.contains, word64, hle]
    simp [Id.ofJson, toJson, Json.nat, readNat, readInt, hrange, Except.map]
  | string s => rfl

theorem field_ofJson {ms : Members} {name : String} (h : id.Fits)
    (hfind : find? ms name = some id.toJson) : field ms name Id.ofJson = .ok id := by
  simp only [field, hfind, ofJson_toJson h]

end Id

namespace Error
variable {e : Error}

/-- The code is a signed word of 32 bits. -/
def Fits (e : Error) : Prop := -2147483648 ≤ e.code ∧ e.code ≤ 2147483647

instance : DecidablePred Fits := fun e =>
  inferInstanceAs (Decidable (-2147483648 ≤ e.code ∧ e.code ≤ 2147483647))

/-- An error as it is read. -/
def reread (e : Error) : Error := { e with data := present e.data }

theorem reread_eq_self_iff : e.reread = e ↔ e.data ≠ some .null := by
  rw [← present_eq_self_iff]
  constructor
  · exact fun h => congrArg data h
  · intro h
    rw [reread, h]

theorem ofJson_toJson (h : e.Fits) : Error.ofJson e.toJson = .ok e.reread := by
  let ms : Members :=
    [("code", .int e.code), ("message", .str e.message)] ++ optionalMember "data" e.data
  have hcode : field ms "code" (readInt signed32) = .ok e.code := by
    have hrange : signed32.contains e.code = true := by
      simp [IntRange.contains, signed32, h.1, h.2]
    simp [field, ms, readInt, hrange]
  have hmessage : field ms "message" readString = .ok e.message := field_readString (by simp [ms])
  have hdata : fieldOr ms "data" readPresent none = .ok (present e.data) :=
    fieldOr_readPresent (by simp [ms])
  have hmembers : shape.members e.toJson = .ok ms := by
    refine Shape.members_obj ?_ fun f hf => ?_
    · cases e.data <;> simp [optionalMember]
    · simp only [shape, List.mem_cons, List.not_mem_nil, or_false] at hf
      rcases hf with rfl | rfl | rfl
      · exact Field.fitsIn_required hcode
      · exact Field.fitsIn_required hmessage
      · exact Field.fitsIn_withDefault hdata
  simp only [Error.ofJson, hmembers, hcode, hmessage, hdata, bind, Except.bind, pure, Except.pure]
  rfl

end Error

namespace Request
variable {r : Request}

/-- A request as it is read. -/
def reread (r : Request) : Request := { r with params := present r.params }

theorem reread_eq_self_iff : r.reread = r ↔ r.params ≠ some .null := by
  rw [← present_eq_self_iff]
  constructor
  · exact fun h => congrArg params h
  · intro h
    rw [reread, h]

theorem ofJson_toJson (h : r.id.Fits) : Request.ofJson r.toJson = .ok r.reread := by
  let ms : Members := [("jsonrpc", .str r.jsonrpc), ("method", .str r.method)]
    ++ optionalMember "params" r.params ++ [("id", r.id.toJson)]
  have hjsonrpc : field ms "jsonrpc" readString = .ok r.jsonrpc := field_readString (by simp [ms])
  have hmethod : field ms "method" readString = .ok r.method := field_readString (by simp [ms])
  have hparams : fieldOr ms "params" readPresent none = .ok (present r.params) :=
    fieldOr_readPresent (by simp [ms])
  have hid : field ms "id" Id.ofJson = .ok r.id := Id.field_ofJson h (by simp [ms])
  have hmembers : shape.members r.toJson = .ok ms := by
    refine Shape.members_obj ?_ fun f hf => ?_
    · cases r.params <;> simp [optionalMember]
    · simp only [shape, List.mem_cons, List.not_mem_nil, or_false] at hf
      rcases hf with rfl | rfl | rfl | rfl
      · exact Field.fitsIn_required hjsonrpc
      · exact Field.fitsIn_required hmethod
      · exact Field.fitsIn_withDefault hparams
      · exact Field.fitsIn_required hid
  simp only [Request.ofJson, hmembers, hjsonrpc, hmethod, hparams, hid, bind, Except.bind, pure,
    Except.pure]
  rfl

end Request

namespace Response
variable {r : Response}

/-- A response as it is read. -/
def reread (r : Response) : Response :=
  { r with result := present r.result, error := r.error.map Error.reread }

theorem ofJson_toJson (hid : r.id.Fits) (herror : ∀ e ∈ r.error, e.Fits) :
    Response.ofJson r.toJson = .ok r.reread := by
  let ms : Members := [("jsonrpc", .str r.jsonrpc)] ++ optionalMember "result" r.result
    ++ optionalMember "error" (r.error.map Error.toJson) ++ [("id", r.id.toJson)]
  have hjsonrpc : field ms "jsonrpc" readString = .ok r.jsonrpc := field_readString (by simp [ms])
  have hresult : fieldOr ms "result" readPresent none = .ok (present r.result) :=
    fieldOr_readPresent (by simp [ms])
  have herror' : fieldOr ms "error" (readOption Error.ofJson) none =
      .ok (r.error.map Error.reread) := by
    cases he : r.error with
    | none => simp [fieldOr, ms, he]
    | some e =>
      have hread : readOption Error.ofJson e.toJson = .ok (some e.reread) := by
        have hown := Error.ofJson_toJson (herror e he)
        unfold Error.toJson at hown ⊢
        simp only [readOption, hown, Except.map]
      simp [fieldOr, ms, he, hread]
  have hid' : field ms "id" Id.ofJson = .ok r.id := Id.field_ofJson hid (by simp [ms])
  have hmembers : shape.members r.toJson = .ok ms := by
    refine Shape.members_obj ?_ fun f hf => ?_
    · cases r.result <;> cases r.error <;> simp [optionalMember]
    · simp only [shape, List.mem_cons, List.not_mem_nil, or_false] at hf
      rcases hf with rfl | rfl | rfl | rfl
      · exact Field.fitsIn_required hjsonrpc
      · exact Field.fitsIn_withDefault hresult
      · exact Field.fitsIn_withDefault herror'
      · exact Field.fitsIn_required hid'
  simp only [Response.ofJson, hmembers, hjsonrpc, hresult, herror', hid', bind, Except.bind, pure,
    Except.pure]
  rfl

/-- The response has a result or an error, but not both. -/
def HasOne (r : Response) : Prop := r.result.isSome ≠ r.error.isSome

theorem reread_success (id : Id) (v : Json) :
    (success id v).reread = { success id v with result := present (some v) } := rfl

theorem reread_failure (id : Id) (e : Error) : (failure id e).reread = failure id e.reread := rfl

theorem reread_success_iff {id : Id} {v : Json} :
    (success id v).reread = success id v ↔ v ≠ .null := by
  have hpresent : present (some v) = some v ↔ v ≠ .null := by
    simpa using present_eq_self_iff (v := some v)
  rw [← hpresent, reread_success]
  constructor
  · exact fun h => congrArg result h
  · intro h
    rw [h]
    rfl

theorem reread_failure_iff {id : Id} {e : Error} :
    (failure id e).reread = failure id e ↔ e.data ≠ some .null := by
  rw [← Error.reread_eq_self_iff, reread_failure]
  constructor
  · exact fun h => Option.some.inj (congrArg error h)
  · intro h
    rw [h]

theorem hasOne_reread_success_iff {id : Id} {v : Json} :
    (success id v).reread.HasOne ↔ v ≠ .null := by
  cases v <;> simp [HasOne, reread, success, present]

end Response

/-- A message that is written can be read again, and the same message is read exactly if its
result, its parameters or its data are not null. A response with an error is read with just
the error, but one with the result null is read with neither. -/
theorem messages_read_back {id : Id} (hid : id.Fits) (v : Json) {e : Error} (he : e.Fits)
    {r : Request} (hr : r.id.Fits) :
    (Response.ofJson (Response.success id v).toJson = .ok (Response.success id v).reread ∧
      ((Response.success id v).reread = .success id v ↔ v ≠ .null) ∧
      ((Response.success id v).reread.HasOne ↔ v ≠ .null)) ∧
    (Response.ofJson (Response.failure id e).toJson = .ok (Response.failure id e).reread ∧
      ((Response.failure id e).reread = .failure id e ↔ e.data ≠ some .null) ∧
      (Response.failure id e).reread.HasOne) ∧
    (Request.ofJson r.toJson = .ok r.reread ∧ (r.reread = r ↔ r.params ≠ some .null)) ∧
    Error.ofJson e.toJson = .ok e.reread ∧ (e.reread = e ↔ e.data ≠ some .null) := by
  refine ⟨⟨Response.ofJson_toJson hid ?_, Response.reread_success_iff,
      Response.hasOne_reread_success_iff⟩,
    ⟨Response.ofJson_toJson hid ?_, Response.reread_failure_iff, ?_⟩,
    ⟨Request.ofJson_toJson hr, Request.reread_eq_self_iff⟩,
    Error.ofJson_toJson he, Error.reread_eq_self_iff⟩
  · intro own hown
    cases hown
  · intro own hown
    cases hown
    exact he
  · simp [Response.HasOne, Response.reread, Response.failure, present]

/-- The answer to a request that drops all snapshots is null, and it is read as a response
with neither a result nor an error; so are parameters and data that are null. Without any
null the messages are read as they were. -/
theorem null_result_read_back :
    (Call.resetState.serve Heap.capture {}).answer.toOption = some .null ∧
    Response.ofJson (Response.success (.number 1) .null).toJson =
      .ok { result := none, error := none, id := .number 1 } ∧
    ¬ (Response.success (.number 1) .null).reread.HasOne ∧
    (Response.failure (.number 1) (.methodNotFound "Verif")).reread =
      .failure (.number 1) (.methodNotFound "Verif") ∧
    Request.ofJson { method := "ResetState", params := some .null,
                     id := .string "a" : Request }.toJson =
      .ok { method := "ResetState", id := .string "a" } ∧
    Error.ofJson { code := -33001, message := "busy", data := some .null : Error }.toJson =
      .ok { code := -33001, message := "busy" } := by
  have hrequest : (Id.string "a").Fits := by decide
  obtain ⟨⟨hread, -, hone⟩, -, ⟨hparams, -⟩, hdata, -⟩ :=
    messages_read_back (show (Id.number 1).Fits by decide) .null
      (show ({ code := -33001, message := "busy", data := some .null } : Error).Fits by decide)
      (show ({ method := "ResetState", params := some .null,
               id := .string "a" } : Request).id.Fits from hrequest)
  obtain ⟨-, ⟨-, hsame, -⟩, -, -⟩ :=
    messages_read_back (show (Id.number 1).Fits by decide) .null
      (show (Error.methodNotFound "Verif").Fits by decide)
      (show ({ method := "Verif", id := .string "a" } : Request).id.Fits from hrequest)
  exact ⟨rfl, hread, fun h => hone.mp h rfl, hsame.mpr nofun, hparams, hdata⟩

end ProofStepper.Rpc
