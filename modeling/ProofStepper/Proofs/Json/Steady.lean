import ProofStepper.Proofs.Json.Reading

/-!
# Reading from a longer text

What a reader takes from the front of a text it takes from every longer one as well.
A number is the exception: where the text ends with it, more digits could follow. So
values are read alike from a longer text where something follows them, and lists and
objects, which close themselves, always.
-/

namespace ProofStepper.Json

/-- Whatever is read from a text is also read from every longer one. -/
def Steady {α : Type} (read : List Char → Read α) : Prop :=
  ∀ {s a rest}, read s = .ok (a, rest) → ∀ t, read (s ++ t) = .ok (a, rest ++ t)

theorem steady_hexCode : Steady hexCode := by
  intro s n rest h t
  unfold hexCode at h
  split at h
  · split at h
    · rename_i hn
      cases h
      simp only [List.cons_append, hexCode, hn]
    · cases h
  · split at h <;> cases h

theorem steady_unicodeEscape : Steady unicodeEscape := by
  intro s c rest h t
  unfold unicodeEscape at h ⊢
  split at h
  · cases h
  · rename_i n first hfirst
    rw [steady_hexCode hfirst]
    simp only at h ⊢
    split at h
    · cases h
    · rename_i hlow
      rw [if_neg hlow]
      split at h
      · rename_i hhigh
        rw [if_pos hhigh]
        split at h
        · cases h
        · cases h
        · split at h
          · cases h
          · rename_i m after hsecond
            split at h
            · rename_i hm
              simp only [Except.ok.injEq, Prod.mk.injEq] at h
              obtain ⟨rfl, rfl⟩ := h
              rw [List.cons_append, List.cons_append]
              simp only
              rw [steady_hexCode hsecond]
              exact if_pos hm
            · cases h
        · cases h
      · rename_i hhigh
        rw [if_neg hhigh]
        cases h
        rfl

theorem steady_escape : Steady escape := by
  intro s c rest h t
  cases s with
  | nil => cases h
  | cons first after =>
    by_cases hu : first = 'u'
    · subst hu
      simp only [escape, List.cons_append, Char.reduceEq, or_self, ↓reduceIte] at h ⊢
      exact steady_unicodeEscape h t
    · simp only [escape, List.cons_append, if_neg hu] at h ⊢
      split_ifs at h ⊢
      all_goals cases h
      all_goals rfl

theorem steady_stringChars : Steady stringChars := by
  intro s cs rest h t
  fun_induction stringChars s generalizing cs rest with
  | case1 => cases h
  | case2 =>
    cases h
    exact stringChars_end _
  | case3 => cases h
  | case4 => cases h
  | case5 text d after hd ds last hds _ ih =>
    cases h
    exact stringChars_escape (steady_escape hd t) (ih hds)
  | case6 => cases h
  | case7 => cases h
  | case8 c text hquote hslash hplain cs last hcs ih =>
    cases h
    exact stringChars_plain hquote hslash hplain (ih hcs)

theorem steady_string : Steady string := by
  intro s a rest h t
  unfold string at h ⊢
  cases hc : stringChars s with
  | error e => rw [hc] at h; cases h
  | ok p =>
    obtain ⟨cs, after⟩ := p
    rw [hc] at h
    cases h
    rw [steady_stringChars hc]
    rfl

theorem steady_word (expected : List Char) : Steady (word expected) := by
  intro s a rest h t
  induction expected generalizing s with
  | nil => cases h; rfl
  | cons e es ih =>
    cases s with
    | nil => cases h
    | cons c s =>
      rw [word] at h
      rw [List.cons_append, word]
      split at h
      · rename_i hc
        rw [if_pos hc]
        exact ih h
      · cases h

/-- Whatever is read from a text, and is not all of it, is also read from every longer one. -/
def SteadyInside {α : Type} (read : List Char → Read α) : Prop :=
  ∀ {s a rest}, read s = .ok (a, rest) → rest ≠ [] → ∀ t, read (s ++ t) = .ok (a, rest ++ t)

section
variable {p : Char → Bool} {s : List Char}

theorem takeWhile_append_of_dropWhile (h : s.dropWhile p ≠ []) (t : List Char) :
    (s ++ t).takeWhile p = s.takeWhile p := by
  rw [List.takeWhile_append, if_neg]
  intro hlength
  have hsplit := congrArg List.length (List.takeWhile_append_dropWhile (p := p) (l := s))
  rw [List.length_append, hlength] at hsplit
  exact h (List.length_eq_zero_iff.mp (by omega))

theorem dropWhile_append_of_dropWhile (h : s.dropWhile p ≠ []) (t : List Char) :
    (s ++ t).dropWhile p = s.dropWhile p ++ t := by
  rw [List.dropWhile_append, if_neg (by simpa using h)]

end

section
variable {negative : Bool} {significand : Nat} {exponent : Int} {s rest : List Char} {v : Json}

theorem decimal_eq_ok (h : decimal negative significand exponent s = .ok (v, rest)) :
    rest = s ∧ (∃ x, v = .real x) ∧ ∀ u, decimal negative significand exponent u = .ok (v, u) := by
  unfold decimal at h ⊢
  split at h
  · cases h
  · rename_i x hx
    cases h
    exact ⟨rfl, ⟨x, rfl⟩, fun u => rfl⟩

/-- The digits of an exponent. -/
def exponentDigits (negative : Bool) (significand : Nat) (exponent : Int) (shrinks : Bool) :
    List Char → Read Json
  | [] => .error .truncated
  | d :: text =>
    if isDigit d then
      let size := ofDigits 10 (((d :: text).takeWhile isDigit).map digitValue)
      decimal negative significand (if shrinks then exponent - size else exponent + size)
        ((d :: text).dropWhile isDigit)
    else .error .malformed

theorem exponentPart_cons (c : Char) (text : List Char) :
    exponentPart negative significand exponent (c :: text) =
      if c = '+' then exponentDigits negative significand exponent false text
      else if c = '-' then exponentDigits negative significand exponent true text
      else exponentDigits negative significand exponent false (c :: text) := by
  unfold exponentPart
  split
  rename_i shrinks digits hsign
  split at hsign
  · rename_i hc
    cases hc
    cases hsign
    rw [if_pos rfl]
    cases text <;> rfl
  · rename_i hc
    cases hc
    cases hsign
    rw [if_neg (by decide), if_pos rfl]
    cases text <;> rfl
  · rename_i hplus hminus
    cases hsign
    have hp : c ≠ '+' := by
      rintro rfl
      exact hplus text rfl
    have hm : c ≠ '-' := by
      rintro rfl
      exact hminus text rfl
    rw [if_neg hp, if_neg hm]
    rfl

theorem steadyInside_exponentDigits (shrinks : Bool) :
    SteadyInside (exponentDigits negative significand exponent shrinks) := by
  intro s v rest h hrest t
  cases s with
  | nil => cases h
  | cons d text =>
    rw [exponentDigits] at h
    rw [List.cons_append, exponentDigits]
    split at h
    · rename_i hd
      obtain ⟨rfl, -, hdecimal⟩ := decimal_eq_ok h
      rw [if_pos hd, ← List.cons_append, takeWhile_append_of_dropWhile hrest,
        dropWhile_append_of_dropWhile hrest]
      exact hdecimal _
    · cases h

theorem steadyInside_exponentPart : SteadyInside (exponentPart negative significand exponent) := by
  intro s v rest h hrest t
  cases s with
  | nil => cases h
  | cons c text =>
    rw [exponentPart_cons] at h
    rw [List.cons_append, exponentPart_cons]
    split_ifs at h ⊢
    · exact steadyInside_exponentDigits _ h hrest t
    · exact steadyInside_exponentDigits _ h hrest t
    · exact steadyInside_exponentDigits _ h hrest t

/-- Digits that end before a character end there in a longer text as well. -/
theorem digits_append {d c : Char} {text after : List Char}
    (h : (d :: text).dropWhile isDigit = c :: after) (t : List Char) :
    (d :: (text ++ t)).dropWhile isDigit = c :: (after ++ t) ∧
      (d :: (text ++ t)).takeWhile isDigit = (d :: text).takeWhile isDigit := by
  have hne : (d :: text).dropWhile isDigit ≠ [] := by simp [h]
  have hdrop := dropWhile_append_of_dropWhile hne t
  rw [h] at hdrop
  exact ⟨hdrop, takeWhile_append_of_dropWhile hne t⟩

/-- The digits of a fraction end before a character, which may open an exponent. -/
theorem fractionPart_cons {d c : Char} {text after : List Char} (hd : isDigit d = true)
    (hdrop : (d :: text).dropWhile isDigit = c :: after) :
    fractionPart negative significand exponent (d :: text) =
      let gathered := gather significand ((d :: text).takeWhile isDigit)
      if c = 'e' ∨ c = 'E' then
        exponentPart negative gathered.1 (exponent - gathered.2.1) after
      else decimal negative gathered.1 (exponent - gathered.2.1) (c :: after) := by
  rw [fractionPart, if_pos hd, hdrop]
  simp only
  split
  · rename_i hmark
    cases hmark
    rw [if_pos (.inl rfl)]
  · rename_i hmark
    cases hmark
    rw [if_pos (.inr rfl)]
  · rename_i hlower hupper
    rw [if_neg]
    rintro (rfl | rfl)
    · exact hlower after rfl
    · exact hupper after rfl

theorem steadyInside_fractionPart : SteadyInside (fractionPart negative significand exponent) := by
  intro s v rest h hrest t
  cases s with
  | nil => cases h
  | cons d text =>
    by_cases hd : isDigit d = true
    · cases hdrop : (d :: text).dropWhile isDigit with
      | nil =>
        rw [fractionPart, if_pos hd, hdrop] at h
        exact absurd (decimal_eq_ok h).1 hrest
      | cons c after =>
        obtain ⟨hlonger, hdigits⟩ := digits_append hdrop t
        rw [fractionPart_cons hd hdrop] at h
        rw [List.cons_append, fractionPart_cons hd hlonger, hdigits]
        simp only at h ⊢
        split_ifs at h ⊢
        · exact steadyInside_exponentPart h hrest t
        · obtain ⟨rfl, -, hdecimal⟩ := decimal_eq_ok h
          exact hdecimal _
    · rw [fractionPart, if_neg hd] at h
      cases h

/-- The digits of a number end before a character, which may open a fraction or an exponent. -/
theorem number_cons {d c : Char} {text after : List Char} (hd : isDigit d = true)
    (hdrop : (d :: text).dropWhile isDigit = c :: after) :
    number negative (d :: text) =
      let digits := (d :: text).takeWhile isDigit
      let gathered := gather 0 digits
      if d = '0' ∧ digits.length ≠ 1 then .error .malformed
      else if c = '.' then fractionPart negative gathered.1 gathered.2.2 after
      else if c = 'e' ∨ c = 'E' then exponentPart negative gathered.1 gathered.2.2 after
      else if gathered.2.2 = 0 then wholeNumber negative gathered.1 (c :: after)
      else decimal negative gathered.1 gathered.2.2 (c :: after) := by
  rw [number, if_pos hd]
  simp only
  split
  · rfl
  · rename_i hzero
    rw [after_digits hd hzero, hdrop]
    split
    · rename_i hmark
      cases hmark
      rw [if_pos rfl]
    · rename_i hmark
      cases hmark
      rw [if_neg (by decide), if_pos (.inl rfl)]
    · rename_i hmark
      cases hmark
      rw [if_neg (by decide), if_pos (.inr rfl)]
    · rename_i hpoint hlower hupper
      have hp : c ≠ '.' := by
        rintro rfl
        exact hpoint after rfl
      have he : ¬ (c = 'e' ∨ c = 'E') := by
        rintro (rfl | rfl)
        · exact hlower after rfl
        · exact hupper after rfl
      rw [if_neg hp, if_neg he]

theorem wholeNumber_eq_ok {n : Nat} (h : wholeNumber negative n s = .ok (v, rest)) :
    rest = s ∧ ∀ u, wholeNumber negative n u = .ok (v, u) := by
  unfold wholeNumber at h ⊢
  split_ifs at h ⊢
  · exact ⟨(decimal_eq_ok h).1, (decimal_eq_ok h).2.2⟩
  · cases h
    exact ⟨rfl, fun _ => rfl⟩
  · cases h
    exact ⟨rfl, fun _ => rfl⟩

theorem steadyInside_number : SteadyInside (number negative) := by
  intro s v rest h hrest t
  cases s with
  | nil => cases h
  | cons d text =>
    by_cases hd : isDigit d = true
    · cases hdrop : (d :: text).dropWhile isDigit with
      | nil =>
        rw [number, if_pos hd] at h
        simp only at h
        split at h
        · cases h
        · rename_i hzero
          rw [after_digits hd hzero, hdrop] at h
          simp only at h
          split at h
          · exact absurd (wholeNumber_eq_ok h).1 hrest
          · exact absurd (decimal_eq_ok h).1 hrest
      | cons c after =>
        obtain ⟨hlonger, hdigits⟩ := digits_append hdrop t
        rw [number_cons hd hdrop] at h
        rw [List.cons_append, number_cons hd hlonger, hdigits]
        simp only at h ⊢
        split_ifs at h ⊢
        · exact steadyInside_fractionPart h hrest t
        · exact steadyInside_exponentPart h hrest t
        · obtain ⟨rfl, hwhole⟩ := wholeNumber_eq_ok h
          exact hwhole _
        · obtain ⟨rfl, -, hdecimal⟩ := decimal_eq_ok h
          exact hdecimal _
    · rw [number, if_neg hd] at h
      cases h

end

theorem nextItem_append {first : Bool} {c : Char} {text item : List Char}
    (h : nextItem first c text = .ok item) (t : List Char) :
    nextItem first c (text ++ t) = .ok (item ++ t) := by
  unfold nextItem at h ⊢
  split_ifs at h ⊢
  · cases h
    rfl
  · split at h
    · cases h
    · cases h
    · rename_i hnil hclose
      cases h
      cases hgaps : skipGaps text with
      | nil => exact absurd hgaps hnil
      | cons d after =>
        rw [skipGaps_append hgaps t]
        split
        · rename_i hend
          cases hend
        · rename_i hcons
          cases hcons
          exact absurd hgaps (hclose _)
        · rfl

theorem steady_itemStart (first : Bool) : Steady (itemStart first) := by
  intro s there rest h t
  cases hs : skipGaps s with
  | nil =>
    rw [itemStart_end hs] at h
    cases h
  | cons c text =>
    have hlonger := skipGaps_append hs t
    by_cases hc : c = ']'
    · subst hc
      rw [itemStart_close hs] at h
      cases h
      exact itemStart_close hlonger
    · rw [itemStart_next hs hc] at h
      obtain ⟨item, hnext, heq⟩ := eq_ok_of_map h
      cases heq
      rw [itemStart_next hlonger hc, nextItem_append hnext]
      rfl

theorem steady_memberStart (first : Bool) : Steady (memberStart first) := by
  intro s there rest h t
  unfold memberStart at h ⊢
  split at h
  · cases h
  · rename_i text hs
    cases h
    rw [skipGaps_append hs t]
    rfl
  · rename_i c text hc hs
    rw [skipGaps_append hs t]
    split
    · rename_i hnil
      cases hnil
    · rename_i hcons
      cases hcons
      exact absurd rfl hc
    · rename_i hcons
      cases hcons
      split_ifs at h ⊢
      · cases h
        rfl
      · split at h
        · cases h
        · rename_i hgaps
          cases h
          rw [skipGaps_append hgaps t]
          rfl
        · cases h

theorem steady_colon : Steady colon := by
  intro s u rest h t
  unfold colon at h ⊢
  split at h
  · cases h
  · rename_i hs
    cases h
    rw [skipGaps_append hs t]
    rfl
  · cases h

section
variable {α : Type} {start : Bool → List Char → Read Bool} {element element' : List Char → Read α}
  {fuel fuel' : Nat} {first : Bool} {s rest t : List Char} {as : List α}

/-- A sequence stands alike in a longer text if its elements do. No element is the end
of the text, since the sequence has yet to close. -/
theorem sequence_append (hstart : ∀ first, Steady (start first))
    (hnil : ∀ p, start false [] ≠ .ok p)
    (helement : ∀ {text a after}, a ∈ as → element text = .ok (a, after) → after ≠ [] →
      element' (text ++ t) = .ok (a, after ++ t))
    (hfuel : fuel ≤ fuel') (h : sequence start element fuel first s = .ok (as, rest)) :
    sequence start element' fuel' first (s ++ t) = .ok (as, rest ++ t) := by
  induction fuel generalizing fuel' first s as with
  | zero => cases h
  | succ fuel ih =>
    obtain ⟨fuel', rfl⟩ := Nat.exists_eq_add_of_lt hfuel
    obtain ⟨hend, rfl⟩ | ⟨text, a, after, others, hnext, ha, hothers, rfl⟩ := sequence_eq_ok h
    · exact sequence_end (hstart first hend t)
    · have hafter : after ≠ [] := by
        rintro rfl
        cases fuel with
        | zero => cases hothers
        | succ fuel =>
          obtain ⟨hend, -⟩ | ⟨_, _, _, _, hnext, -⟩ := sequence_eq_ok hothers
          · exact hnil _ hend
          · exact hnil _ hnext
      exact sequence_cons (hstart first hnext t) (helement List.mem_cons_self ha hafter)
        (ih (fun ha' => helement (List.mem_cons_of_mem _ ha')) (by omega) hothers)

end

section
variable {α : Type} {read read' : List Char → Read α} {key : String} {v : α} {s rest t : List Char}

theorem value_of_member (h : member read s = .ok ((key, v), rest)) :
    ∃ text, read text = .ok (v, rest) := by
  unfold member at h
  split at h
  · cases h
  · split at h
    · cases h
    · split at h
      · cases h
      · rename_i hread
        cases h
        exact ⟨_, hread⟩

theorem member_append (h : member read s = .ok ((key, v), rest))
    (hread : ∀ {text}, read text = .ok (v, rest) → read' (text ++ t) = .ok (v, rest ++ t)) :
    member read' (s ++ t) = .ok ((key, v), rest ++ t) := by
  unfold member at h ⊢
  split at h
  · cases h
  · rename_i hkey
    rw [steady_string hkey]
    simp only
    split at h
    · cases h
    · rename_i hcolon
      rw [steady_colon hcolon]
      simp only
      split at h
      · cases h
      · rename_i hv
        cases h
        rw [hread hv]

end

section
variable {negative : Bool} {significand : Nat} {exponent : Int} {s rest : List Char} {v : Json}

theorem nesting_decimal (h : decimal negative significand exponent s = .ok (v, rest)) :
    v.nesting = 0 := by
  obtain ⟨-, ⟨x, rfl⟩, -⟩ := decimal_eq_ok h
  rfl

theorem nesting_exponentPart (h : exponentPart negative significand exponent s = .ok (v, rest)) :
    v.nesting = 0 := by
  unfold exponentPart at h
  split at h
  split at h
  · cases h
  · split at h
    · exact nesting_decimal h
    · cases h

theorem nesting_fractionPart (h : fractionPart negative significand exponent s = .ok (v, rest)) :
    v.nesting = 0 := by
  unfold fractionPart at h
  split at h
  · cases h
  · split at h
    · simp only at h
      split at h
      · exact nesting_exponentPart h
      · exact nesting_exponentPart h
      · exact nesting_decimal h
    · cases h

theorem nesting_wholeNumber {n : Nat} (h : wholeNumber negative n s = .ok (v, rest)) :
    v.nesting = 0 := by
  unfold wholeNumber at h
  split_ifs at h
  · exact nesting_decimal h
  · cases h
    rfl
  · cases h
    rfl

theorem nesting_number (h : number negative s = .ok (v, rest)) : v.nesting = 0 := by
  unfold number at h
  split at h
  · cases h
  · split at h
    · simp only at h
      split at h
      · cases h
      · split at h
        · exact nesting_fractionPart h
        · exact nesting_exponentPart h
        · exact nesting_exponentPart h
        · split at h
          · exact nesting_wholeNumber h
          · exact nesting_decimal h
    · cases h

end

/-- No value that is read has more brackets open at a time than the reader allows. -/
theorem nesting_le_of_value {d : Nat} {s rest : List Char} {v : Json}
    (h : value d s = .ok (v, rest)) : v.nesting ≤ d := by
  induction d using Nat.strong_induction_on generalizing s v rest with
  | _ d ih =>
    obtain ⟨c, text, -, hopens⟩ := opens_of_value h
    cases hopens with
    | null | yes | no | quote => exact Nat.zero_le _
    | negative h => exact (nesting_number h).trans_le (Nat.zero_le _)
    | digit _ h => exact (nesting_number h).trans_le (Nat.zero_le _)
    | list h =>
      refine Nat.succ_le_succ (nestingItems_le_iff.mpr fun v hv => ?_)
      obtain ⟨text, after, hread⟩ := sequence_mem h hv
      exact ih _ (Nat.lt_succ_self _) hread
    | object h =>
      refine Nat.succ_le_succ (nestingMembers_le_iff.mpr fun m hm => ?_)
      obtain ⟨text, after, hmember⟩ := sequence_mem h hm
      obtain ⟨text, hread⟩ := value_of_member hmember
      exact ih _ (Nat.lt_succ_self _) hread

/-- A value stands alike in a longer text, also where the reader may open fewer brackets,
as long as it may open those of the value. -/
theorem value_append {d e : Nat} {s rest : List Char} {v : Json} (h : value d s = .ok (v, rest))
    (hv : v.nesting ≤ e) (hrest : rest ≠ [] ∨ 0 < v.nesting) (t : List Char) :
    value e (s ++ t) = .ok (v, rest ++ t) := by
  induction d using Nat.strong_induction_on generalizing e s v rest with
  | _ d ih =>
    obtain ⟨c, text, hs, hopens⟩ := opens_of_value h
    refine value_of_opens (skipGaps_append hs t) ?_
    have hnumber {negative : Bool} {s : List Char} (h : number negative s = .ok (v, rest)) :
        number negative (s ++ t) = .ok (v, rest ++ t) := by
      have hscalar := nesting_number h
      exact steadyInside_number h (hrest.resolve_right (by omega)) t
    cases hopens with
    | null h => exact .null (steady_word _ h t)
    | yes h => exact .yes (steady_word _ h t)
    | no h => exact .no (steady_word _ h t)
    | negative h => exact .negative (hnumber h)
    | digit hc h => exact .digit hc (hnumber h)
    | quote h => exact .quote (steady_string h t)
    | list h =>
      cases e with
      | zero => cases hv
      | succ e =>
        have hinside := nestingItems_le_iff.mp (Nat.le_of_succ_le_succ hv)
        refine .list (sequence_append steady_itemStart (fun _ => nofun) ?_ (by simp) h)
        intro text v after hmem hread hafter
        exact ih _ (Nat.lt_succ_self _) hread (hinside v hmem) (.inl hafter)
    | object h =>
      cases e with
      | zero => cases hv
      | succ e =>
        have hinside := nestingMembers_le_iff.mp (Nat.le_of_succ_le_succ hv)
        refine .object (sequence_append steady_memberStart (fun _ => nofun) ?_ (by simp) h)
        intro text m after hmem hmember hafter
        exact member_append hmember fun hread =>
          ih _ (Nat.lt_succ_self _) hread (hinside m hmem) (.inl hafter)

end ProofStepper.Json
