import ProofStepper.Json.Printer
import ProofStepper.Proofs.Json.Reading

/-!
# The texts of numbers and strings

Whole numbers are read back from their digits where the text goes on with nothing that
could belong to a number, and strings from their escaped characters up to the quote.
-/

namespace ProofStepper.Json

/-- What stands behind a number so that the number ends there. -/
def Closes (rest : List Char) : Prop :=
  ∀ c ∈ rest.head?, isDigit c = false ∧ c ≠ '.' ∧ c ≠ 'e' ∧ c ≠ 'E'

theorem isDigit_eq (c : Char) : isDigit c = c.isDigit := by
  simp [isDigit, Char.isDigit, Char.le_def, UInt32.le_iff_toNat_le]

theorem gather_of_fits {digits : List Char} {n : Nat}
    (h : Nat.ofDigitChars 10 digits n < significandLimit) :
    gather n digits = (Nat.ofDigitChars 10 digits n, digits.length, 0) := by
  induction digits generalizing n with
  | nil => rfl
  | cons d digits ih =>
    have hd : n * 10 + digitValue d = 10 * n + (d.toNat - '0'.toNat) := by
      rw [digitValue, Nat.mul_comm]
    rw [Nat.ofDigitChars_cons, ← hd] at h ⊢
    have hgrown : n * 10 + digitValue d < significandLimit := by
      have hpow : 0 < 10 ^ digits.length := Nat.pow_pos (by decide)
      have hle := Nat.le_mul_of_pos_left (n * 10 + digitValue d) hpow
      rw [Nat.ofDigitChars_eq_ofDigitChars_zero] at h
      omega
    rw [gather, if_pos hgrown, ih h]
    rfl

theorem exists_toDigits_eq_cons (n : Nat) : ∃ d ds, Nat.toDigits 10 n = d :: ds :=
  List.exists_cons_of_ne_nil Nat.toDigits_ne_nil

/-- Only zero has a leading zero. -/
theorem head?_toDigits {n : Nat} (h : 0 < n) : (Nat.toDigits 10 n).head? ≠ some '0' := by
  induction n using Nat.strong_induction_on with
  | _ n ih =>
    by_cases hn : n < 10
    · rw [Nat.toDigits_of_lt_base hn]
      simp; omega
    · have hlead := ih (n / 10) (by omega) (by omega)
      obtain ⟨d, ds, hds⟩ := exists_toDigits_eq_cons (n / 10)
      rw [Nat.toDigits_of_base_le (by decide) (by omega), hds]
      rwa [hds] at hlead

section
variable {rest : List Char} {n : Nat}

theorem isDigit_of_mem_toDigits {c : Char} (hc : c ∈ Nat.toDigits 10 n) : isDigit c = true := by
  rw [isDigit_eq]
  exact Nat.isDigit_of_mem_toDigits (by decide) (by decide) hc

theorem Closes.takeWhile (hrest : Closes rest) : rest.takeWhile isDigit = [] := by
  cases rest with
  | nil => rfl
  | cons c rest => exact List.takeWhile_cons_of_neg (by simp [(hrest c rfl).1])

theorem Closes.dropWhile (hrest : Closes rest) : rest.dropWhile isDigit = rest := by
  cases rest with
  | nil => rfl
  | cons c rest => exact List.dropWhile_cons_of_neg (by simp [(hrest c rfl).1])

/-- The digits of a whole number are read as that number. -/
theorem number_toDigits (negative : Bool) (hn : n < significandLimit) (hrest : Closes rest) :
    number negative (Nat.toDigits 10 n ++ rest) = wholeNumber negative n rest := by
  have htake : (Nat.toDigits 10 n ++ rest).takeWhile isDigit = Nat.toDigits 10 n := by
    rw [List.takeWhile_append_of_pos fun _ => isDigit_of_mem_toDigits, hrest.takeWhile,
      List.append_nil]
  have hdrop : (Nat.toDigits 10 n ++ rest).dropWhile isDigit = rest := by
    rw [List.dropWhile_append_of_pos fun _ => isDigit_of_mem_toDigits, hrest.dropWhile]
  have hvalue : Nat.ofDigitChars 10 (Nat.toDigits 10 n) 0 = n := Nat.ofDigitChars_ten_toDigits
  have hgather := gather_of_fits (hvalue.symm ▸ hn)
  rw [hvalue] at hgather
  obtain ⟨d, ds, hds⟩ := exists_toDigits_eq_cons n
  have hd : isDigit d = true := isDigit_of_mem_toDigits (n := n) (by simp [hds])
  have hzero : ¬ (d = '0' ∧ (Nat.toDigits 10 n).length ≠ 1) := by
    rintro ⟨rfl, hlength⟩
    obtain rfl | hpos := Nat.eq_zero_or_pos n
    · exact hlength rfl
    · exact head?_toDigits hpos (by rw [hds]; rfl)
  rw [hds, List.cons_append] at htake hdrop ⊢
  rw [number, if_pos hd]
  simp only [htake, ← hds]
  rw [if_neg hzero, after_digits hd (by rwa [htake, ← hds]), hdrop, hgather]
  simp only
  split
  · exact absurd rfl (hrest '.' rfl).2.1
  · exact absurd rfl (hrest 'e' rfl).2.2.1
  · exact absurd rfl (hrest 'E' rfl).2.2.2
  · exact if_pos trivial

theorem isGap_of_isDigit {c : Char} (hc : isDigit c = true) : isGap c = false := by
  by_contra hgap
  simp only [isGap, Bool.not_eq_false, Bool.or_eq_true, beq_iff_eq] at hgap
  obtain ((rfl | rfl) | rfl) | rfl := hgap <;> cases hc

theorem value_intText {d : Nat} {n : Int} (hlow : -9223372036854775808 ≤ n)
    (hhigh : n < 18446744073709551616) (hrest : Closes rest) :
    value d (intText n ++ rest) = .ok (.int n, rest) := by
  cases n with
  | ofNat n =>
    have htext : intText (.ofNat n) = Nat.toDigits 10 n := Nat.toList_repr
    have hn : n < significandLimit := Int.ofNat_lt.mp hhigh
    have hread := number_toDigits false hn hrest
    obtain ⟨c, text, hc⟩ := exists_toDigits_eq_cons n
    have hdigit : isDigit c = true := isDigit_of_mem_toDigits (n := n) (by simp [hc])
    rw [htext, hc, List.cons_append]
    rw [hc, List.cons_append] at hread
    exact value_of_opens (skipGaps_of_not_gap (isGap_of_isDigit hdigit)) (.digit hdigit hread)
  | negSucc n =>
    have htext : intText (.negSucc n) = '-' :: Nat.toDigits 10 (n + 1) := by
      show ("-" ++ (n + 1).repr).toList = _
      rw [String.toList_append, Nat.toList_repr]
      rfl
    have hn : n + 1 ≤ Nat.pow 2 63 := Int.ofNat_le.mp (Int.le_of_neg_le_neg hlow)
    have hread := number_toDigits true (Nat.lt_of_le_of_lt hn (by decide)) hrest
    rw [wholeNumber, if_pos rfl, if_neg (by rintro (h | h) <;> omega)] at hread
    rw [htext]
    exact value_of_opens (skipGaps_of_not_gap rfl) (.negative hread)

end

theorem hexFour?_of_control : ∀ n < 32,
    hexFour? '0' '0' (hexLetter (n / 16)) (hexLetter (n % 16)) = some n := by
  decide +kernel

theorem unicodeEscape_of_control {c : Char} (hc : c < ' ') (rest : List Char) :
    unicodeEscape ('0' :: '0' :: hexLetter (c.toNat / 16) :: hexLetter (c.toNat % 16) :: rest) =
      .ok (c, rest) := by
  have hn : c.toNat < 32 := hc
  have hlow : isLowSurrogate c.toNat = false := by simp [isLowSurrogate]; omega
  have hhigh : isHighSurrogate c.toNat = false := by simp [isHighSurrogate]; omega
  rw [unicodeEscape, hexCode, hexFour?_of_control _ hn]
  simp only [hlow, hhigh, Bool.false_eq_true, if_false, Char.ofNat_toNat]

theorem stringChars_escapedChar (c : Char) {s cs rest : List Char}
    (h : stringChars s = .ok (cs, rest)) :
    stringChars (escapedChar c ++ s) = .ok (c :: cs, rest) := by
  unfold escapedChar
  split_ifs with hquote hslash hback hfeed hline hreturn htab hcontrol
  · subst hquote
    exact stringChars_escape rfl h
  · subst hslash
    exact stringChars_escape rfl h
  · subst hback
    exact stringChars_escape rfl h
  · subst hfeed
    exact stringChars_escape rfl h
  · subst hline
    exact stringChars_escape rfl h
  · subst hreturn
    exact stringChars_escape rfl h
  · subst htab
    exact stringChars_escape rfl h
  · exact stringChars_escape (unicodeEscape_of_control hcontrol s) h
  · exact stringChars_plain hquote hslash hcontrol h

theorem stringChars_escaped (s rest : List Char) :
    stringChars (s.flatMap escapedChar ++ '"' :: rest) = .ok (s, rest) := by
  induction s with
  | nil => exact stringChars_end rest
  | cons c s ih =>
    rw [List.flatMap_cons, List.append_assoc]
    exact stringChars_escapedChar c ih

theorem string_escaped (s : String) (rest : List Char) :
    string (s.toList.flatMap escapedChar ++ '"' :: rest) = .ok (s, rest) := by
  rw [string, stringChars_escaped]
  simp only [Except.map, String.ofList_toList]

end ProofStepper.Json
