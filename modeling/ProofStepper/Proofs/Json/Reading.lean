import Mathlib.Data.List.TakeWhile
import ProofStepper.Json.Reader

/-!
# How values are taken from a text

Lists and objects are both read as sequences: at the start of every element it shows
whether the sequence is over, and the elements differ only in how they start and in what
they are. A value is told by its first character after gaps, and `Opens` says what each
first character leads to.
-/
namespace ProofStepper.Json

section
variable {c : Char} {s text gap : List Char}

theorem skipGaps_of_not_gap (h : isGap c = false) : skipGaps (c :: s) = c :: s :=
  List.dropWhile_cons_of_neg (by simp [h])

theorem skipGaps_gaps (h : ∀ c ∈ gap, isGap c = true) : skipGaps (gap ++ s) = skipGaps s :=
  List.dropWhile_append_of_pos h

theorem skipGaps_append (h : skipGaps s = c :: text) (t : List Char) :
    skipGaps (s ++ t) = c :: (text ++ t) := by
  rw [skipGaps] at h
  rw [skipGaps, List.dropWhile_append, h]
  rfl

theorem isGap_of_skipGaps (h : skipGaps s = c :: text) : isGap c = false := by
  have hhead := List.head?_dropWhile_not isGap s
  rw [skipGaps] at h
  rw [h] at hhead
  simpa using hhead

theorem skipGaps_skipGaps (s : List Char) : skipGaps (skipGaps s) = skipGaps s := by
  cases h : skipGaps s with
  | nil => rfl
  | cons c text => exact skipGaps_of_not_gap (isGap_of_skipGaps h)

end

/-- A leading zero stands alone, so that the digits end after it. -/
theorem after_digits {d : Char} {text : List Char} (hd : isDigit d = true)
    (hzero : ¬ (d = '0' ∧ ((d :: text).takeWhile isDigit).length ≠ 1)) :
    (if d = '0' then text else (d :: text).dropWhile isDigit) = (d :: text).dropWhile isDigit := by
  split
  · rename_i h0
    have hone : ((d :: text).takeWhile isDigit).length = 1 := by
      by_contra hne
      exact hzero ⟨h0, hne⟩
    have htake : text.takeWhile isDigit = [] := by
      rw [List.takeWhile_cons_of_pos hd] at hone
      exact List.length_eq_zero_iff.mp (by simpa using hone)
    have htext := List.takeWhile_append_dropWhile (p := isDigit) (l := text)
    rw [htake, List.nil_append] at htext
    rw [List.dropWhile_cons_of_pos hd, htext]
  · rfl

section
variable {c : Char} {s after cs rest : List Char}

theorem stringChars_escape (hc : escape s = .ok (c, after))
    (h : stringChars after = .ok (cs, rest)) : stringChars ('\\' :: s) = .ok (c :: cs, rest) := by
  rw [stringChars, if_neg (by decide), if_pos rfl]
  split
  · rename_i he
    rw [hc] at he
    cases he
  · rename_i hd
    rw [hc] at hd
    cases hd
    simp only [h]

theorem stringChars_plain (hquote : c ≠ '"') (hslash : c ≠ '\\') (hcontrol : ¬ c < ' ')
    (h : stringChars s = .ok (cs, rest)) : stringChars (c :: s) = .ok (c :: cs, rest) := by
  rw [stringChars, if_neg hquote, if_neg hslash, if_neg hcontrol]
  simp only [h]

theorem stringChars_end (s : List Char) : stringChars ('"' :: s) = .ok ([], s) := by
  rw [stringChars, if_pos rfl]

end

/-- The elements of a sequence. `start` passes what stands before an element, and tells
whether there is one. -/
def sequence {α : Type} (start : Bool → List Char → Read Bool) (element : List Char → Read α) :
    (fuel : Nat) → (first : Bool) → List Char → Read (List α)
  | 0, _, _ => .error .truncated
  | fuel + 1, first, s =>
    match start first s with
    | .error e => .error e
    | .ok (false, rest) => .ok ([], rest)
    | .ok (true, text) =>
      match element text with
      | .error e => .error e
      | .ok (a, after) =>
        match sequence start element fuel false after with
        | .error e => .error e
        | .ok (as, last) => .ok (a :: as, last)

section
variable {α : Type} {start : Bool → List Char → Read Bool} {element : List Char → Read α}
  {fuel : Nat} {first : Bool} {s last : List Char} {as : List α}

theorem sequence_end (h : start first s = .ok (false, last)) :
    sequence start element (fuel + 1) first s = .ok ([], last) := by
  rw [sequence, h]

theorem sequence_cons {text after : List Char} {a : α} (hstart : start first s = .ok (true, text))
    (ha : element text = .ok (a, after))
    (hothers : sequence start element fuel false after = .ok (as, last)) :
    sequence start element (fuel + 1) first s = .ok (a :: as, last) := by
  rw [sequence, hstart]
  simp only [ha, hothers]

/-- A sequence is over, or it goes on with an element and the others. -/
theorem sequence_eq_ok (h : sequence start element (fuel + 1) first s = .ok (as, last)) :
    (start first s = .ok (false, last) ∧ as = []) ∨
    ∃ text a after others, start first s = .ok (true, text) ∧ element text = .ok (a, after) ∧
      sequence start element fuel false after = .ok (others, last) ∧ as = a :: others := by
  rw [sequence] at h
  split at h
  · cases h
  · rename_i hstart
    cases h
    exact .inl ⟨hstart, rfl⟩
  · rename_i text hstart
    split at h
    · cases h
    · rename_i a after ha
      split at h
      · cases h
      · rename_i others last' hothers
        cases h
        exact .inr ⟨text, a, after, others, hstart, ha, hothers, rfl⟩

theorem sequence_mem {a : α} (h : sequence start element fuel first s = .ok (as, last))
    (ha : a ∈ as) : ∃ text after, element text = .ok (a, after) := by
  induction fuel generalizing first s as with
  | zero => cases h
  | succ fuel ih =>
    obtain ⟨-, rfl⟩ | ⟨text, b, after, others, -, hb, hothers, rfl⟩ := sequence_eq_ok h
    · cases ha
    · obtain rfl | ha := List.mem_cons.mp ha
      · exact ⟨text, after, hb⟩
      · exact ih hothers ha

end

/-- Where the next item starts, after a character that does not close the list. -/
def nextItem (first : Bool) (c : Char) (rest : List Char) : Except Fault (List Char) :=
  if first then .ok (c :: rest)
  else if c = ',' then
    match skipGaps rest with
    | [] => .error .truncated
    | ']' :: _ => .error .malformed
    | after => .ok after
  else .error .malformed

/-- The start of an item: the text from there, or what follows the closing bracket. -/
def itemStart (first : Bool) (s : List Char) : Read Bool :=
  match skipGaps s with
  | [] => .error .truncated
  | ']' :: rest => .ok (false, rest)
  | c :: rest => (nextItem first c rest).map fun text => (true, text)

section
variable {first : Bool} {c : Char} {s rest : List Char}

theorem itemStart_end (hs : skipGaps s = []) : itemStart first s = .error .truncated := by
  rw [itemStart, hs]

theorem itemStart_close (hs : skipGaps s = ']' :: rest) :
    itemStart first s = .ok (false, rest) := by
  rw [itemStart, hs]
  rfl

theorem itemStart_next (hs : skipGaps s = c :: rest) (hc : c ≠ ']') :
    itemStart first s = (nextItem first c rest).map fun text => (true, text) := by
  rw [itemStart, hs]
  split
  · rename_i h
    cases h
  · rename_i h
    cases h
    exact absurd rfl hc
  · rename_i h
    cases h
    rfl

end

/-- A key, the colon and a value. -/
def member {α : Type} (value : List Char → Read α) (s : List Char) : Read (String × α) :=
  match string s with
  | .error e => .error e
  | .ok (key, rest) =>
    match colon rest with
    | .error e => .error e
    | .ok ((), rest) =>
      match value rest with
      | .error e => .error e
      | .ok (v, rest) => .ok ((key, v), rest)

section
variable {α : Type} (read : List Char → Read α)

theorem items_eq_sequence (fuel : Nat) (first : Bool) (s : List Char) :
    items read fuel first s = sequence itemStart read fuel first s := by
  induction fuel generalizing first s with
  | zero => rfl
  | succ fuel ih =>
    rw [items, sequence]
    simp only [ih]
    split
    · rename_i hs
      rw [itemStart_end hs]
    · rename_i hs
      rw [itemStart_close hs]
    · rename_i c rest hc hs
      rw [itemStart_next hs hc]
      split
      · rename_i e hstart
        have hnext : nextItem first c rest = .error e := hstart
        rw [hnext]
        rfl
      · rename_i text hstart
        have hnext : nextItem first c rest = .ok text := hstart
        rw [hnext]
        rfl

theorem members_eq_sequence (fuel : Nat) (first : Bool) (s : List Char) :
    members read fuel first s = sequence memberStart (member read) fuel first s := by
  induction fuel generalizing first s with
  | zero => rfl
  | succ fuel ih =>
    rw [members, sequence]
    cases memberStart first s with
    | error e => rfl
    | ok p =>
      obtain ⟨there, text⟩ := p
      cases there with
      | false => rfl
      | true =>
        simp only [member, ih]
        cases string text with
        | error e => rfl
        | ok p =>
          obtain ⟨key, afterKey⟩ := p
          simp only
          cases colon afterKey with
          | error e => rfl
          | ok p =>
            obtain ⟨⟨⟩, afterColon⟩ := p
            simp only
            cases read afterColon with
            | error e => rfl
            | ok p =>
              obtain ⟨v, after⟩ := p
              simp only
              cases sequence memberStart (member read) fuel false after <;> rfl

end

mutual

/-- How many brackets and braces are open at a time. -/
def nesting : Json → Nat
  | .arr items => nestingItems items + 1
  | .obj members => nestingMembers members + 1
  | .null => 0
  | .bool _ => 0
  | .int _ => 0
  | .real _ => 0
  | .str _ => 0

def nestingItems : List Json → Nat
  | [] => 0
  | v :: rest => max (nesting v) (nestingItems rest)

def nestingMembers : List (String × Json) → Nat
  | [] => 0
  | (_, v) :: rest => max (nesting v) (nestingMembers rest)

end

section
variable {d : Nat} {vs : List Json} {ms : List (String × Json)}

theorem nestingItems_le_iff : nestingItems vs ≤ d ↔ ∀ v ∈ vs, v.nesting ≤ d := by
  induction vs with
  | nil => simp [nestingItems]
  | cons v vs ih => rw [nestingItems, Nat.max_le, ih, List.forall_mem_cons]

theorem nestingMembers_le_iff : nestingMembers ms ≤ d ↔ ∀ m ∈ ms, m.2.nesting ≤ d := by
  induction ms with
  | nil => simp [nestingMembers]
  | cons m ms ih => rw [nestingMembers, Nat.max_le, ih, List.forall_mem_cons]

end

/-- What the first character of a value leads to: the text after it, the value and the
rest. -/
inductive Opens : Nat → Char → List Char → Json → List Char → Prop
  | null {d : Nat} {text rest : List Char} (h : word "ull".toList text = .ok ((), rest)) :
      Opens d 'n' text .null rest
  | yes {d : Nat} {text rest : List Char} (h : word "rue".toList text = .ok ((), rest)) :
      Opens d 't' text (.bool true) rest
  | no {d : Nat} {text rest : List Char} (h : word "alse".toList text = .ok ((), rest)) :
      Opens d 'f' text (.bool false) rest
  | negative {d : Nat} {text rest : List Char} {v : Json} (h : number true text = .ok (v, rest)) :
      Opens d '-' text v rest
  | digit {d : Nat} {c : Char} {text rest : List Char} {v : Json} (hc : isDigit c = true)
      (h : number false (c :: text) = .ok (v, rest)) : Opens d c text v rest
  | quote {d : Nat} {text rest : List Char} {s : String} (h : string text = .ok (s, rest)) :
      Opens d '"' text (.str s) rest
  | list {d : Nat} {text rest : List Char} {vs : List Json}
      (h : sequence itemStart (value d) (text.length + 1) true text = .ok (vs, rest)) :
      Opens (d + 1) '[' text (.arr vs) rest
  | object {d : Nat} {text rest : List Char} {ms : List (String × Json)}
      (h : sequence memberStart (member (value d)) (text.length + 1) true text = .ok (ms, rest)) :
      Opens (d + 1) '\x7b' text (.obj ms) rest

theorem eq_ok_of_map {α β ε : Type} {read : Except ε α} {f : α → β} {b : β}
    (h : read.map f = .ok b) : ∃ a, read = .ok a ∧ f a = b := by
  cases read with
  | error e => cases h
  | ok a => exact ⟨a, rfl, Except.ok.inj h⟩

section
variable {d : Nat} {c : Char} {s text rest : List Char} {v : Json}

theorem value_of_opens (hs : skipGaps s = c :: text) (h : Opens d c text v rest) :
    value d s = .ok (v, rest) := by
  cases h with
  | null h | yes h | no h | quote h => rw [value, hs]; simp only [h]; rfl
  | negative h => rw [value, hs]; exact h
  | list h => rw [value, hs]; simp only [items_eq_sequence, h]; rfl
  | object h => rw [value, hs]; simp only [members_eq_sequence, h]; rfl
  | digit hc h =>
    rw [value, hs]
    split
    case h_9 first after _ _ _ _ _ _ _ heq =>
      cases heq
      rw [if_pos hc]
      exact h
    all_goals
      rename_i heq
      cases heq
    all_goals exact absurd hc (by decide)

theorem opens_of_value (h : value d s = .ok (v, rest)) :
    ∃ c text, skipGaps s = c :: text ∧ Opens d c text v rest := by
  unfold value at h
  split at h
  · cases h
  · obtain ⟨p, hw, hp⟩ := eq_ok_of_map h
    cases hp
    exact ⟨_, _, ‹_›, .null hw⟩
  · obtain ⟨p, hw, hp⟩ := eq_ok_of_map h
    cases hp
    exact ⟨_, _, ‹_›, .yes hw⟩
  · obtain ⟨p, hw, hp⟩ := eq_ok_of_map h
    cases hp
    exact ⟨_, _, ‹_›, .no hw⟩
  · exact ⟨_, _, ‹_›, .negative h⟩
  · obtain ⟨p, hw, hp⟩ := eq_ok_of_map h
    cases hp
    exact ⟨_, _, ‹_›, .quote hw⟩
  · split at h
    · cases h
    · rw [items_eq_sequence] at h
      obtain ⟨p, hw, hp⟩ := eq_ok_of_map h
      cases hp
      exact ⟨_, _, ‹_›, .list hw⟩
  · split at h
    · cases h
    · rw [members_eq_sequence] at h
      obtain ⟨p, hw, hp⟩ := eq_ok_of_map h
      cases hp
      exact ⟨_, _, ‹_›, .object hw⟩
  · split at h
    · rename_i hc
      exact ⟨_, _, ‹_›, .digit hc h⟩
    · cases h

end

theorem atEnd_iff {rest : List Char} : atEnd rest = true ↔ ∀ c ∈ rest, isGap c = true := by
  rw [atEnd, skipGaps, List.isEmpty_iff, List.dropWhile_eq_nil_iff]

/-- A whole text stands for a value if only gaps follow the value. -/
theorem ofText_eq_ok_iff {text : String} {v : Json} :
    ofText text = .ok v ↔
      ∃ rest, value nestingLimit text.toList = .ok (v, rest) ∧ ∀ c ∈ rest, isGap c = true := by
  rw [ofText]
  cases value nestingLimit text.toList with
  | error e => simp
  | ok p =>
    obtain ⟨u, rest⟩ := p
    simp only [Except.ok.injEq, Prod.mk.injEq, ← atEnd_iff]
    constructor
    · intro h
      split at h
      · rename_i hrest
        cases h
        exact ⟨rest, ⟨rfl, rfl⟩, hrest⟩
      · cases h
    · rintro ⟨_, ⟨rfl, rfl⟩, hrest⟩
      exact if_pos hrest

end ProofStepper.Json
