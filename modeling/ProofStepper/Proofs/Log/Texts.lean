import ProofStepper.Proofs.Json.Steady
import ProofStepper.Proofs.Log.Records

/-!
# Logs as texts

A log is read from either of its texts as it was, and a bare list of its records as the
log of these records. For a list of any other origin, an object that holds it under
`steps` is a log exactly if the list is one of records, and the list alone is then the
log of the same records. The object opens one bracket more than the list.
-/

namespace ProofStepper

open Json

namespace ProofLog
variable {text : String} {v : Json} {items : List Json} {steps : List Record}

theorem ofText_of_text (h : Json.ofText text = .ok v) :
    ofText text = (ofEitherForm v).mapError .content := by
  obtain ⟨rest, hread, hrest⟩ := ofText_eq_ok_iff.mp h
  rw [ofText, hread]
  simp only [atEnd_iff.mpr hrest, if_true]
  cases ofEitherForm v <;> rfl

theorem ofText_eq_ok_iff_of_text {log : ProofLog} (h : Json.ofText text = .ok v) :
    ofText text = .ok log ↔ ofEitherForm v = .ok log := by
  rw [ofText_of_text h]
  cases ofEitherForm v <;> simp [Except.mapError]

theorem ofText_print {print : Json → String} (h : Legible nestingLimit v)
    (hprint : print ∈ [compact, spread]) : Json.ofText (print v) = .ok v := by
  simp only [List.mem_cons, List.not_mem_nil, or_false] at hprint
  obtain rfl | rfl := hprint
  · exact ofText_compact h
  · exact ofText_spread h

theorem ofEitherForm_toJson {log : ProofLog} (h : log.Fits) :
    ofEitherForm log.toJson = .ok log :=
  (ofEitherForm_obj _ log).mpr (ofJson_toJson h)

/-- An object that holds nothing but a list is a log exactly if the list is one of records. -/
theorem ofEitherForm_steps (v : Json) :
    ofEitherForm (.obj [("steps", v)]) =
      match readList Record.ofJson v with
      | .ok steps => .ok { steps }
      | .error _ => .error (.noAlternative "Repr") := by
  have hlist : ∃ e, readList Record.ofJson (.obj [("steps", v)]) = .error e := ⟨_, rfl⟩
  obtain ⟨e, hlist⟩ := hlist
  rw [ofEitherForm, hlist]
  simp only
  cases hsteps : readList Record.ofJson v with
  | error mismatch =>
    have hmembers : shape.members (.obj [("steps", v)]) = .error mismatch := by
      simp [Shape.members, shape, Shape.checkMembers, Field.required, hsteps, Except.map]
    rw [ProofLog.ofJson, hmembers]
    rfl
  | ok steps => rw [ofJson_obj (by simp) (field_of_find (by simp) hsteps) rfl]

/-- The text of an object that holds a list of records and nothing else. -/
def wrapped (text : String) : String := "\x7b\"steps\":" ++ text ++ "\x7d"

theorem ofText_wrapped (h : Json.ofText text = .ok (.arr items))
    (hnesting : (Json.arr items).nesting ≤ 126) :
    Json.ofText (wrapped text) = .ok (.obj [("steps", .arr items)]) := by
  obtain ⟨rest, hread, hrest⟩ := ofText_eq_ok_iff.mp h
  have hitems : value 126 (text.toList ++ ['\x7d']) = .ok (.arr items, rest ++ ['\x7d']) :=
    value_append hread hnesting (.inr (Nat.succ_pos _)) _
  have hend : memberStart false (rest ++ ['\x7d']) = .ok (false, []) := by
    rw [memberStart, skipGaps_gaps hrest]
    rfl
  have htext : (wrapped text).toList =
      '\x7b' :: '"' :: ("steps".toList.flatMap escapedChar ++ '"' :: ':' ::
        (text.toList ++ ['\x7d'])) := by
    rw [wrapped, String.toList_append, String.toList_append, List.append_assoc]
    rfl
  refine ofText_eq_ok_iff.mpr ⟨[], ?_, List.forall_mem_nil _⟩
  rw [htext]
  refine value_of_opens (skipGaps_of_not_gap rfl) (.object ?_)
  exact sequence_cons rfl (member_written hitems) (sequence_end hend)

/-- A log is read from its compact and from its spread text as it was, and the list of its
records as the log of these records. No text that is read opens more than 127 brackets, so
that a list with at most 126 can stand in an object. Whatever the list holds, the object is
a log exactly if the list is one of records, and both are then the log of these. -/
theorem texts_read_back :
    (∀ log : ProofLog, log.Fits → ∀ print ∈ [compact, spread],
      ofText (print log.toJson) = .ok log ∧
      ofText (print (stepsJson log.steps)) = .ok { steps := log.steps }) ∧
    (∀ text v, Json.ofText text = .ok v → v.nesting ≤ 127) ∧
    (∀ bare items, Json.ofText bare = .ok (.arr items) → (Json.arr items).nesting ≤ 126 →
      Json.ofText (wrapped bare) = .ok (.obj [("steps", .arr items)])) ∧
    (∀ bare whole items, Json.ofText bare = .ok (.arr items) →
      Json.ofText whole = .ok (.obj [("steps", .arr items)]) →
      ((∃ log, ofText whole = .ok log) ↔
        ∃ steps, readList Record.ofJson (.arr items) = .ok steps) ∧
      ∀ steps, readList Record.ofJson (.arr items) = .ok steps →
        ofText whole = .ok { steps } ∧ ofText bare = .ok { steps }) := by
  refine ⟨fun log hlog print hprint => ⟨?_, ?_⟩, fun text v h => ?_, fun _ _ => ofText_wrapped,
    fun bare whole items hbare hwhole => ⟨?_, fun steps hsteps => ⟨?_, ?_⟩⟩⟩
  · refine (ofText_eq_ok_iff_of_text ?_).mpr (ofEitherForm_toJson hlog)
    exact ofText_print (legible_toJson hlog) hprint
  · refine (ofText_eq_ok_iff_of_text ?_).mpr (ofEitherForm_of_steps (readList_stepsJson hlog.steps))
    exact ofText_print (legible_stepsJson hlog.steps) hprint
  · obtain ⟨rest, hread, -⟩ := Json.ofText_eq_ok_iff.mp h
    exact nesting_le_of_value hread
  · simp only [ofText_eq_ok_iff_of_text hwhole, ofEitherForm_steps]
    cases readList Record.ofJson (.arr items) <;> simp
  · rw [ofText_eq_ok_iff_of_text hwhole, ofEitherForm_steps, hsteps]
  · exact (ofText_eq_ok_iff_of_text hbare).mpr (ofEitherForm_of_steps hsteps)

/-- A log with the greatest numbers and every kind of escape. -/
def extremeLog : ProofLog where
  steps := [{
    parent := some 18446744073709551615
    verifiable := 18446744073709551615
    methodOffset := 18446744073709551615
    fileName := "a\\b/\"c\"\n\x01"
    position := ⟨4294967295, 0⟩
    store := ["", "\x08\x0c\r\t", "\x7f\u00e9"] }]
  diagnostics := [⟨⟨0, 4294967295⟩, "\x1f"⟩]

/-- A list with gaps, an escaped key, and a member that is no field and repeats a key. -/
def looseList : String :=
  "[ \x7b\"note\": [\x7b\"a\":null,\"a\":[]\x7d],\n" ++
    "\"\\u0070arent\":null, \"isBranch\": true\x7d ]\n"

set_option maxRecDepth 20000 in
theorem extreme_log_read_back :
    ofText (compact extremeLog.toJson) = .ok extremeLog ∧
    ofText (spread (stepsJson extremeLog.steps)) = .ok { steps := extremeLog.steps } ∧
    ofText (wrapped looseList) = .ok { steps := [{ isBranch := true }] } ∧
    ofText looseList = .ok { steps := [{ isBranch := true }] } := by
  obtain ⟨hlog, -, hwrapped, hsame⟩ := texts_read_back
  have hsteps : ∀ r ∈ extremeLog.steps, r.Fits := by
    intro r hr
    obtain rfl := List.mem_singleton.mp hr
    exact ⟨by decide, by decide, by decide, by decide⟩
  have hfits : extremeLog.Fits := ⟨hsteps, by decide⟩
  have hbare : Json.ofText looseList = .ok (.arr [.obj [
      ("note", .arr [.obj [("a", .null), ("a", .arr [])]]), ("parent", .null),
      ("isBranch", .bool true)]]) := by
    with_unfolding_all rfl
  have hwhole := hwrapped _ _ hbare (by simp [nesting, nestingItems, nestingMembers])
  have hboth := (hsame _ _ _ hbare hwhole).2 [{ isBranch := true }] rfl
  exact ⟨(hlog _ hfits compact (by simp)).1, (hlog _ hfits spread (by simp)).2, hboth.1, hboth.2⟩

end ProofLog

end ProofStepper
