import ProofStepper.Proofs.Json.Literals

/-!
# Reading back what was written

`Written` has the texts of a value with gaps between the parts of its lists and objects,
as a printer lays them out. Each of them is read as that value, and both printers write
such texts, so that a value of whole numbers, strings, lists and objects comes back from
its compact and from its spread text.
-/

namespace ProofStepper.Json

/-- The texts of some elements with commas between them. -/
def joined {α : Type} (body : α → List Char) (a : α) (as : List α) : List Char :=
  body a ++ as.flatMap fun b => ',' :: body b

/-- The texts that stand for a value. Gaps may stand between the parts of a list or an
object, alike before all of its elements. -/
inductive Written : Json → List Char → Prop
  | null : Written .null (scalarText .null)
  | bool (b : Bool) : Written (.bool b) (scalarText (.bool b))
  | int {n : Int} (hlow : -9223372036854775808 ≤ n) (hhigh : n < 18446744073709551616) :
      Written (.int n) (intText n)
  | str (s : String) : Written (.str s) (stringText s)
  | noItems : Written (.arr []) ['[', ']']
  | items {v : Json} {vs : List Json} {before after : List Char} (write : Json → List Char)
      (hbefore : ∀ c ∈ before, isGap c = true) (hafter : ∀ c ∈ after, isGap c = true)
      (hwrite : ∀ u ∈ v :: vs, Written u (write u)) :
      Written (.arr (v :: vs)) ('[' :: (joined (fun u => before ++ write u) v vs ++ after ++ [']']))
  | noMembers : Written (.obj []) ['\x7b', '\x7d']
  | members {m : String × Json} {ms : List (String × Json)} {before between after : List Char}
      (write : String × Json → List Char)
      (hbefore : ∀ c ∈ before, isGap c = true) (hbetween : ∀ c ∈ between, isGap c = true)
      (hafter : ∀ c ∈ after, isGap c = true)
      (hwrite : ∀ u ∈ m :: ms, Written u.2 (write u)) :
      Written (.obj (m :: ms))
        ('\x7b' :: (joined (fun u => before ++ stringText u.1 ++ ':' :: (between ++ write u)) m ms
          ++ after ++ ['\x7d']))

theorem closes_comma (s : List Char) : Closes (',' :: s) := by
  rintro c ⟨⟩
  decide

theorem closes_gaps {gap rest : List Char} (hgap : ∀ c ∈ gap, isGap c = true)
    (hrest : Closes rest) : Closes (gap ++ rest) := by
  cases gap with
  | nil => exact hrest
  | cons c gap =>
    rintro c ⟨⟩
    have hc := hgap c List.mem_cons_self
    simp only [isGap, Bool.or_eq_true, beq_iff_eq] at hc
    obtain ((rfl | rfl) | rfl) | rfl := hc <;> decide

/-- The text of an element is read as that element, at the start of a sequence and after
a comma. -/
def ReadsElement {α : Type} (start : Bool → List Char → Read Bool)
    (element : List Char → Read α) (a : α) (text : List Char) : Prop :=
  ∀ rest, Closes rest → ∃ inner, start true (text ++ rest) = .ok (true, inner) ∧
    start false (',' :: (text ++ rest)) = .ok (true, inner) ∧ element inner = .ok (a, rest)

section
variable {α : Type} {start : Bool → List Char → Read Bool} {element : List Char → Read α}
  {body : α → List Char} {tail last : List Char} {a : α} {as : List α} {fuel : Nat}

theorem closes_others (htail : Closes tail) :
    Closes (as.flatMap (fun b => ',' :: body b) ++ tail) := by
  cases as with
  | nil => exact htail
  | cons b as => exact closes_comma _

theorem sequence_others (hend : start false tail = .ok (false, last)) (htail : Closes tail)
    (hread : ∀ b ∈ as, ReadsElement start element b (body b))
    (hfuel : (as.flatMap fun b => ',' :: body b).length < fuel) :
    sequence start element fuel false (as.flatMap (fun b => ',' :: body b) ++ tail) =
      .ok (as, last) := by
  induction as generalizing fuel with
  | nil =>
    obtain ⟨fuel, rfl⟩ := Nat.exists_eq_add_of_lt hfuel
    exact sequence_end hend
  | cons b as ih =>
    obtain ⟨fuel, rfl⟩ := Nat.exists_eq_add_of_lt hfuel
    obtain ⟨inner, -, hstart, hb⟩ := hread b List.mem_cons_self _ (closes_others htail)
    rw [List.flatMap_cons, List.append_assoc]
    refine sequence_cons hstart hb (ih (fun c hc => hread c (List.mem_cons_of_mem _ hc)) ?_)
    simp only [List.cons_append, List.length_cons, List.length_append]
    omega

/-- Joined elements are read as these elements. -/
theorem sequence_joined (hend : start false tail = .ok (false, last)) (htail : Closes tail)
    (hread : ∀ b ∈ a :: as, ReadsElement start element b (body b)) (hne : tail ≠ []) :
    sequence start element ((joined body a as ++ tail).length + 1) true
      (joined body a as ++ tail) = .ok (a :: as, last) := by
  obtain ⟨inner, hstart, -, ha⟩ := hread a List.mem_cons_self _ (closes_others htail)
  have hlength : 0 < tail.length := List.length_pos_iff.mpr hne
  rw [joined, List.append_assoc]
  refine sequence_cons hstart ha (sequence_others hend htail
    (fun b hb => hread b (List.mem_cons_of_mem _ hb)) ?_)
  simp only [List.length_append]
  omega

end

section
variable {d : Nat} {s rest before between after : List Char} {v : Json}

theorem value_skipGaps (d : Nat) (s : List Char) : value d (skipGaps s) = value d s := by
  unfold value
  rw [skipGaps_skipGaps]

theorem value_gaps {gap : List Char} (hgap : ∀ c ∈ gap, isGap c = true) :
    value d (gap ++ s) = value d s := by
  rw [← value_skipGaps, skipGaps_gaps hgap, value_skipGaps]

theorem Opens.ne_bracket {c : Char} (h : Opens d c s v rest) : c ≠ ']' := by
  rintro rfl
  cases h with
  | digit hc => exact absurd hc (by decide)

theorem itemStart_true_of_value (h : value d s = .ok (v, rest)) :
    itemStart true s = .ok (true, skipGaps s) := by
  obtain ⟨c, text, hs, hopens⟩ := opens_of_value h
  rw [itemStart_next hs hopens.ne_bracket, hs]
  rfl

theorem itemStart_false_of_value (h : value d s = .ok (v, rest)) :
    itemStart false (',' :: s) = .ok (true, skipGaps s) := by
  obtain ⟨c, text, hs, hopens⟩ := opens_of_value h
  rw [itemStart_next (skipGaps_of_not_gap rfl) (by decide), nextItem, hs]
  simp only [Bool.false_eq_true, if_false, if_true]
  split
  · rename_i h
    cases h
  · rename_i h
    cases h
    exact absurd rfl hopens.ne_bracket
  · rfl

theorem readsElement_item {text : List Char} (hbefore : ∀ c ∈ before, isGap c = true)
    (hread : ∀ rest, Closes rest → value d (text ++ rest) = .ok (v, rest)) :
    ReadsElement itemStart (value d) v (before ++ text) := by
  intro rest hrest
  have hvalue : value d (before ++ text ++ rest) = .ok (v, rest) := by
    rw [List.append_assoc, value_gaps hbefore]
    exact hread rest hrest
  exact ⟨_, itemStart_true_of_value hvalue, itemStart_false_of_value hvalue,
    by rwa [value_skipGaps]⟩

theorem value_items {vs : List Json} {write : Json → List Char}
    (hbefore : ∀ c ∈ before, isGap c = true) (hafter : ∀ c ∈ after, isGap c = true)
    (hread : ∀ u ∈ v :: vs, ∀ rest, Closes rest → value d (write u ++ rest) = .ok (u, rest)) :
    value (d + 1) ('[' :: (joined (fun u => before ++ write u) v vs ++ after ++ [']']) ++ rest) =
      .ok (.arr (v :: vs), rest) := by
  have hend : itemStart false (after ++ ']' :: rest) = .ok (false, rest) :=
    itemStart_close (skipGaps_gaps hafter)
  have htail : Closes (after ++ ']' :: rest) := closes_gaps hafter (by rintro c ⟨⟩; decide)
  have hsequence := sequence_joined hend htail
    (fun u hu => readsElement_item hbefore (hread u hu)) (by simp)
  simp only [List.cons_append, List.append_assoc, List.nil_append]
  exact value_of_opens (skipGaps_of_not_gap rfl) (.list hsequence)

theorem memberStart_quote (h : skipGaps s = '"' :: rest) :
    memberStart true s = .ok (true, rest) ∧ memberStart false (',' :: s) = .ok (true, rest) := by
  constructor
  · rw [memberStart, h]
    rfl
  · rw [memberStart, skipGaps_of_not_gap rfl]
    split
    · rename_i hend
      cases hend
    · rename_i hclose
      cases hclose
    · rename_i hcomma
      cases hcomma
      simp [h]

theorem member_written {α : Type} {read : List Char → Read α} {key : String} {a : α}
    (h : read s = .ok (a, rest)) :
    member read (key.toList.flatMap escapedChar ++ '"' :: ':' :: s) = .ok ((key, a), rest) := by
  have hcolon : colon (':' :: s) = .ok ((), s) := rfl
  rw [member, string_escaped]
  simp only [hcolon, h]

theorem readsElement_member {key : String} {text : List Char}
    (hbefore : ∀ c ∈ before, isGap c = true) (hbetween : ∀ c ∈ between, isGap c = true)
    (hread : ∀ rest, Closes rest → value d (text ++ rest) = .ok (v, rest)) :
    ReadsElement memberStart (member (value d)) (key, v)
      (before ++ stringText key ++ ':' :: (between ++ text)) := by
  intro rest hrest
  have hquote : skipGaps (before ++ stringText key ++ ':' :: (between ++ text) ++ rest) =
      '"' :: (key.toList.flatMap escapedChar ++ '"' :: ':' :: (between ++ (text ++ rest))) := by
    simp only [stringText, List.append_assoc, List.cons_append, List.nil_append]
    exact skipGaps_gaps hbefore
  refine ⟨_, (memberStart_quote hquote).1, (memberStart_quote hquote).2, member_written ?_⟩
  rw [value_gaps hbetween]
  exact hread rest hrest

theorem value_members {m : String × Json} {ms : List (String × Json)}
    {write : String × Json → List Char} (hbefore : ∀ c ∈ before, isGap c = true)
    (hbetween : ∀ c ∈ between, isGap c = true) (hafter : ∀ c ∈ after, isGap c = true)
    (hread : ∀ u ∈ m :: ms, ∀ rest, Closes rest → value d (write u ++ rest) = .ok (u.2, rest)) :
    value (d + 1) ('\x7b' :: (joined
        (fun u => before ++ stringText u.1 ++ ':' :: (between ++ write u)) m ms
          ++ after ++ ['\x7d']) ++ rest) =
      .ok (.obj (m :: ms), rest) := by
  have hend : memberStart false (after ++ '\x7d' :: rest) = .ok (false, rest) := by
    rw [memberStart, skipGaps_gaps hafter]
    rfl
  have htail : Closes (after ++ '\x7d' :: rest) := closes_gaps hafter (by rintro c ⟨⟩; decide)
  have hsequence := sequence_joined hend htail
    (fun u hu => readsElement_member hbefore hbetween (hread u hu)) (by simp)
  simp only [List.cons_append, List.append_assoc, List.nil_append] at hsequence ⊢
  exact value_of_opens (skipGaps_of_not_gap rfl) (.object hsequence)

theorem word_append (expected rest : List Char) :
    word expected (expected ++ rest) = .ok ((), rest) := by
  induction expected with
  | nil => rfl
  | cons c expected ih => rw [List.cons_append, word, if_pos rfl, ih]

/-- A written value is read as that value. -/
theorem value_of_written {text : List Char} (h : Written v text) (hd : v.nesting ≤ d)
    (hrest : Closes rest) : value d (text ++ rest) = .ok (v, rest) := by
  induction h generalizing d rest with
  | null => exact value_of_opens rfl (.null (word_append _ rest))
  | bool b =>
    cases b with
    | false => exact value_of_opens rfl (.no (word_append _ rest))
    | true => exact value_of_opens rfl (.yes (word_append _ rest))
  | int hlow hhigh => exact value_intText hlow hhigh hrest
  | str s =>
    have hquote : skipGaps (stringText s ++ rest) =
        '"' :: (s.toList.flatMap escapedChar ++ '"' :: rest) := by
      simp only [stringText, List.append_assoc, List.cons_append, List.nil_append]
      exact skipGaps_of_not_gap rfl
    exact value_of_opens hquote (.quote (string_escaped s rest))
  | noItems =>
    cases d with
    | zero => cases hd
    | succ d => exact value_of_opens rfl (.list rfl)
  | items _ hbefore hafter _ ih =>
    cases d with
    | zero => cases hd
    | succ d =>
      have hinside := nestingItems_le_iff.mp (Nat.le_of_succ_le_succ hd)
      exact value_items hbefore hafter fun u hu rest => ih u hu (hinside u hu)
  | noMembers =>
    cases d with
    | zero => cases hd
    | succ d => exact value_of_opens rfl (.object rfl)
  | members _ hbefore hbetween hafter _ ih =>
    cases d with
    | zero => cases hd
    | succ d =>
      have hinside := nestingMembers_le_iff.mp (Nat.le_of_succ_le_succ hd)
      exact value_members hbefore hbetween hafter fun u hu rest => ih u hu (hinside u hu)

end

theorem ofText_of_written {v : Json} {text : List Char} (h : Written v text)
    (hd : v.nesting ≤ nestingLimit) : ofText (String.ofList text) = .ok v := by
  have hread : value nestingLimit (text ++ []) = .ok (v, []) :=
    value_of_written h hd (by rintro c ⟨⟩)
  rw [List.append_nil] at hread
  rw [ofText, String.toList_ofList, hread]
  rfl

/-- Values without binary64 numbers, whose whole numbers are those that are read as whole
and which open at most `d` brackets and braces at a time. -/
inductive Legible : Nat → Json → Prop
  | null {d : Nat} : Legible d .null
  | bool {d : Nat} (b : Bool) : Legible d (.bool b)
  | int {d : Nat} {n : Int} (hlow : -9223372036854775808 ≤ n) (hhigh : n < 18446744073709551616) :
      Legible d (.int n)
  | str {d : Nat} (s : String) : Legible d (.str s)
  | arr {d : Nat} {items : List Json} (h : ∀ v ∈ items, Legible d v) : Legible (d + 1) (.arr items)
  | obj {d : Nat} {members : List (String × Json)} (h : ∀ m ∈ members, Legible d m.2) :
      Legible (d + 1) (.obj members)

theorem Legible.nesting_le {d : Nat} {v : Json} (h : Legible d v) : v.nesting ≤ d := by
  induction h with
  | null | bool | int | str => exact Nat.zero_le _
  | arr _ ih => exact Nat.succ_le_succ (nestingItems_le_iff.mpr ih)
  | obj _ ih => exact Nat.succ_le_succ (nestingMembers_le_iff.mpr ih)

theorem itemsText_false (vs : List Json) :
    itemsText false vs = vs.flatMap fun v => ',' :: compactText v := by
  induction vs with
  | nil => rfl
  | cons v vs ih =>
    rw [itemsText, ih]
    rfl

theorem membersText_false (ms : List (String × Json)) :
    membersText false ms =
      ms.flatMap fun m => ',' :: (stringText m.1 ++ ':' :: compactText m.2) := by
  induction ms with
  | nil => rfl
  | cons m ms ih =>
    rw [membersText, ih]
    rfl

theorem spreadItems_eq (level : Nat) (vs : List Json) :
    spreadItems level vs = vs.flatMap fun v => ',' :: (indent level ++ spreadText level v) := by
  induction vs with
  | nil => rfl
  | cons v vs ih =>
    rw [spreadItems, ih]
    rfl

theorem spreadMembers_eq (level : Nat) (ms : List (String × Json)) :
    spreadMembers level ms = ms.flatMap fun m =>
      ',' :: (indent level ++ stringText m.1 ++ ':' :: ([' '] ++ spreadText level m.2)) := by
  induction ms with
  | nil => rfl
  | cons m ms ih =>
    rw [spreadMembers, ih, List.flatMap_cons]
    simp only [List.append_assoc, List.cons_append, List.nil_append]

theorem isGap_of_mem_indent {level : Nat} {c : Char} (hc : c ∈ indent level) : isGap c = true := by
  obtain rfl | hc := List.mem_cons.mp hc
  · rfl
  · rw [List.eq_of_mem_replicate hc]
    rfl

section
variable {d : Nat} {v : Json}

theorem Legible.written_compact (h : Legible d v) : Written v (compactText v) := by
  have hnone : ∀ c ∈ ([] : List Char), isGap c = true := nofun
  induction h with
  | null => exact .null
  | bool b => exact .bool b
  | int hlow hhigh => exact .int hlow hhigh
  | str s => exact .str s
  | @arr _ items _ ih =>
    cases items with
    | nil => exact .noItems
    | cons v vs =>
      have hwritten := Written.items compactText hnone hnone ih
      simpa [compactText, itemsText, itemsText_false, joined] using hwritten
  | @obj _ members _ ih =>
    cases members with
    | nil => exact .noMembers
    | cons m ms =>
      have hwritten := Written.members (fun m => compactText m.2) hnone hnone hnone ih
      simpa [compactText, membersText, membersText_false, joined] using hwritten

theorem Legible.written_spread (h : Legible d v) (level : Nat) :
    Written v (spreadText level v) := by
  have hindent : ∀ level, ∀ c ∈ indent level, isGap c = true := fun _ _ => isGap_of_mem_indent
  have hspace : ∀ c ∈ [' '], isGap c = true := by
    intro c hc
    obtain rfl := List.mem_singleton.mp hc
    rfl
  induction h generalizing level with
  | null => exact .null
  | bool b => exact .bool b
  | int hlow hhigh => exact .int hlow hhigh
  | str s => exact .str s
  | @arr _ items _ ih =>
    cases items with
    | nil => exact .noItems
    | cons v vs =>
      have hwritten := Written.items (spreadText (level + 1)) (hindent (level + 1)) (hindent level)
        (fun u hu => ih u hu (level + 1))
      simpa [spreadText, spreadItems_eq, joined] using hwritten
  | @obj _ members _ ih =>
    cases members with
    | nil => exact .noMembers
    | cons m ms =>
      have hwritten := Written.members (fun m => spreadText (level + 1) m.2)
        (hindent (level + 1)) hspace (hindent level) (fun u hu => ih u hu (level + 1))
      simpa [spreadText, spreadMembers_eq, joined] using hwritten

theorem ofText_compact (h : Legible nestingLimit v) : ofText (compact v) = .ok v :=
  ofText_of_written h.written_compact h.nesting_le

theorem ofText_spread (h : Legible nestingLimit v) : ofText (spread v) = .ok v :=
  ofText_of_written (h.written_spread 0) h.nesting_le

end

end ProofStepper.Json
