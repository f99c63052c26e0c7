import ProofStepper.Json.Basic
import ProofStepper.Number.Digits

/-!
# Reading JSON text

A strict reader: no byte order mark, no comments, no trailing commas, no leading
zeros, no control characters and no unpaired surrogates in strings, and a limit on
nesting. Each step returns what it read and the rest of the text. A fault says
whether the text ended too early or went wrong before its end.

A number without point and exponent is whole if it lies between `-2 ^ 63` and
`2 ^ 64 - 1`; any other is a binary64 number, and so is `-0`. Its significand takes
as many leading digits as stay below `2 ^ 64`. A number too large for binary64 is a
fault.
-/

namespace ProofStepper.Json

inductive Fault where
  | truncated
  | malformed
deriving DecidableEq, Repr, Inhabited

/-- What a step read, and the rest. -/
abbrev Read (α : Type) := Except Fault (α × List Char)

def isGap (c : Char) : Bool := c == ' ' || c == '\n' || c == '\t' || c == '\r'

def skipGaps (s : List Char) : List Char := s.dropWhile isGap

/-- Deepest nesting of arrays and objects. -/
def nestingLimit : Nat := 127

def significandLimit : Nat := Nat.pow 2 64

/-- Takes digits into the significand until one does not fit; counts those taken
and those that were left out from there on. -/
def gather (significand : Nat) : List Char → Nat × Nat × Nat
  | [] => (significand, 0, 0)
  | d :: rest =>
    let grown := significand * 10 + digitValue d
    if grown < significandLimit then
      let (s, taken, dropped) := gather grown rest
      (s, taken + 1, dropped)
    else (significand, 0, rest.length + 1)

def decimal (negative : Bool) (significand : Nat) (exponent : Int) (rest : List Char) : Read Json :=
  match Binary64.ofDecimal? negative significand exponent with
  | none => .error .malformed
  | some x => .ok (.real x, rest)

/-- After the mark of the exponent. -/
def exponentPart (negative : Bool) (significand : Nat) (exponent : Int) (s : List Char) :
    Read Json :=
  let (shrinks, digits) := match s with
    | '+' :: rest => (false, rest)
    | '-' :: rest => (true, rest)
    | _ => (false, s)
  match digits with
  | [] => .error .truncated
  | d :: _ =>
    if isDigit d then
      let size := ofDigits 10 ((digits.takeWhile isDigit).map digitValue)
      decimal negative significand (if shrinks then exponent - size else exponent + size)
        (digits.dropWhile isDigit)
    else .error .malformed

/-- After the point. -/
def fractionPart (negative : Bool) (significand : Nat) (exponent : Int) (s : List Char) :
    Read Json :=
  match s with
  | [] => .error .truncated
  | d :: _ =>
    if isDigit d then
      let (gathered, taken, _) := gather significand (s.takeWhile isDigit)
      let lowered := exponent - taken
      match s.dropWhile isDigit with
      | 'e' :: rest => exponentPart negative gathered lowered rest
      | 'E' :: rest => exponentPart negative gathered lowered rest
      | rest => decimal negative gathered lowered rest
    else .error .malformed

def wholeNumber (negative : Bool) (n : Nat) (rest : List Char) : Read Json :=
  if negative then
    if n = 0 ∨ Nat.pow 2 63 < n then decimal true n 0 rest else .ok (.int (-n), rest)
  else .ok (.int n, rest)

/-- After the sign. -/
def number (negative : Bool) (s : List Char) : Read Json :=
  match s with
  | [] => .error .truncated
  | d :: afterFirst =>
    if isDigit d then
      let digits := s.takeWhile isDigit
      if d = '0' ∧ digits.length ≠ 1 then .error .malformed
      else
        let after := if d = '0' then afterFirst else s.dropWhile isDigit
        let (significand, _, dropped) := gather 0 digits
        match after with
        | '.' :: rest => fractionPart negative significand dropped rest
        | 'e' :: rest => exponentPart negative significand dropped rest
        | 'E' :: rest => exponentPart negative significand dropped rest
        | rest =>
          if dropped = 0 then wholeNumber negative significand rest
          else decimal negative significand dropped rest
    else .error .malformed

/-- The number of four hexadecimal digits. -/
def hexFour? (a b c d : Char) : Option Nat := wholeNumber? 16 [a, b, c, d]

def utf8Size (s : List Char) : Nat := s.foldl (fun n c => n + c.utf8Size) 0

/-- Four hexadecimal digits. A text with fewer than four bytes left has ended early. -/
def hexCode (s : List Char) : Read Nat :=
  match s with
  | a :: b :: c :: d :: rest =>
    match hexFour? a b c d with
    | some n => .ok (n, rest)
    | none => .error .malformed
  | _ => if utf8Size s < 4 then .error .truncated else .error .malformed

def isHighSurrogate (n : Nat) : Bool := 0xD800 ≤ n && n ≤ 0xDBFF

def isLowSurrogate (n : Nat) : Bool := 0xDC00 ≤ n && n ≤ 0xDFFF

/-- After `\u`. A high surrogate takes the low one that has to follow it. -/
def unicodeEscape (s : List Char) : Read Char :=
  match hexCode s with
  | .error e => .error e
  | .ok (n, rest) =>
    if isLowSurrogate n then .error .malformed
    else if isHighSurrogate n then
      match rest with
      | [] => .error .truncated
      | '\\' :: [] => .error .truncated
      | '\\' :: 'u' :: second =>
        match hexCode second with
        | .error e => .error e
        | .ok (m, rest) =>
          if isLowSurrogate m then
            .ok (Char.ofNat ((n - 0xD800) * 0x400 + (m - 0xDC00) + 0x10000), rest)
          else .error .malformed
      | _ => .error .malformed
    else .ok (Char.ofNat n, rest)

/-- After the backslash. -/
def escape (s : List Char) : Read Char :=
  match s with
  | [] => .error .truncated
  | c :: rest =>
    if c = '"' ∨ c = '\\' ∨ c = '/' then .ok (c, rest)
    else if c = 'b' then .ok ('\x08', rest)
    else if c = 'f' then .ok ('\x0c', rest)
    else if c = 'n' then .ok ('\n', rest)
    else if c = 'r' then .ok ('\r', rest)
    else if c = 't' then .ok ('\t', rest)
    else if c = 'u' then unicodeEscape rest
    else .error .malformed

theorem hexCode_length {s rest : List Char} {n : Nat} (h : hexCode s = .ok (n, rest)) :
    rest.length < s.length := by
  unfold hexCode at h
  split at h
  · split at h
    · simp only [Except.ok.injEq, Prod.mk.injEq] at h
      obtain ⟨-, rfl⟩ := h
      simp only [List.length_cons]; omega
    · simp at h
  · split at h <;> simp at h

theorem unicodeEscape_length {s rest : List Char} {c : Char}
    (h : unicodeEscape s = .ok (c, rest)) : rest.length < s.length := by
  unfold unicodeEscape at h
  split at h
  · simp at h
  · rename_i n r hn
    have hr := hexCode_length hn
    split at h
    · simp at h
    · split at h
      · split at h
        · simp at h
        · simp at h
        · split at h
          · simp at h
          · rename_i m r' hm
            have hr' := hexCode_length hm
            split at h
            · simp only [Except.ok.injEq, Prod.mk.injEq] at h
              obtain ⟨-, rfl⟩ := h
              simp only [List.length_cons] at hr
              omega
            · simp at h
        · simp at h
      · simp only [Except.ok.injEq, Prod.mk.injEq] at h
        obtain ⟨-, rfl⟩ := h
        exact hr

theorem escape_length {s rest : List Char} {c : Char} (h : escape s = .ok (c, rest)) :
    rest.length < s.length := by
  unfold escape at h
  split at h
  · simp at h
  · rename_i first tail
    by_cases hu : first = 'u'
    · subst hu
      simp only [Char.reduceEq, or_self, ↓reduceIte] at h
      exact Nat.lt_trans (unicodeEscape_length h) (Nat.lt_succ_self _)
    · simp only [hu, ↓reduceIte] at h
      repeat' split at h
      all_goals
        simp only [reduceCtorEq, Except.ok.injEq, Prod.mk.injEq] at h
      all_goals
        obtain ⟨-, rfl⟩ := h
        exact Nat.lt_succ_self _

/-- After the opening quote, up to the closing one. -/
def stringChars (s : List Char) : Read (List Char) :=
  match s with
  | [] => .error .truncated
  | c :: rest =>
    if c = '"' then .ok ([], rest)
    else if c = '\\' then
      match _h : escape rest with
      | .error e => .error e
      | .ok (d, rest') =>
        match stringChars rest' with
        | .error e => .error e
        | .ok (ds, after) => .ok (d :: ds, after)
    else if c < ' ' then .error .malformed
    else
      match stringChars rest with
      | .error e => .error e
      | .ok (cs, after) => .ok (c :: cs, after)
termination_by s.length
decreasing_by
  · have := escape_length _h; simp only [List.length_cons]; omega
  · simp only [List.length_cons]; omega

def string (s : List Char) : Read String :=
  (stringChars s).map fun (cs, rest) => (String.ofList cs, rest)

/-- The rest of a fixed word. -/
def word (expected : List Char) (s : List Char) : Read Unit :=
  match expected, s with
  | [], rest => .ok ((), rest)
  | _ :: _, [] => .error .truncated
  | e :: es, c :: rest => if c = e then word es rest else .error .malformed

/-- The items of a list up to its closing bracket; `first` before any item. Every
item takes at least one character, so the length of the text bounds their number. -/
def items {α : Type} (item : List Char → Read α) :
    (fuel : Nat) → (first : Bool) → List Char → Read (List α)
  | 0, _, _ => .error .truncated
  | fuel + 1, first, s =>
    match skipGaps s with
    | [] => .error .truncated
    | ']' :: rest => .ok ([], rest)
    | c :: rest =>
      let start : Except Fault (List Char) :=
        if first then .ok (c :: rest)
        else if c = ',' then
          match skipGaps rest with
          | [] => .error .truncated
          | ']' :: _ => .error .malformed
          | after => .ok after
        else .error .malformed
      match start with
      | .error e => .error e
      | .ok text =>
        match item text with
        | .error e => .error e
        | .ok (a, after) =>
          match items item fuel false after with
          | .error e => .error e
          | .ok (as, last) => .ok (a :: as, last)

/-- The colon between a key and its value. -/
def colon (s : List Char) : Read Unit :=
  match skipGaps s with
  | [] => .error .truncated
  | ':' :: rest => .ok ((), rest)
  | _ => .error .malformed

/-- The start of a member: its key after the opening quote, none at the closing brace. -/
def memberStart (first : Bool) (s : List Char) : Read Bool :=
  match skipGaps s with
  | [] => .error .truncated
  | '}' :: rest => .ok (false, rest)
  | c :: rest =>
    if first then
      if c = '"' then .ok (true, rest) else .error .malformed
    else if c = ',' then
      match skipGaps rest with
      | [] => .error .truncated
      | '"' :: after => .ok (true, after)
      | _ => .error .malformed
    else .error .malformed

/-- The members of an object up to its closing brace. -/
def members {α : Type} (value : List Char → Read α) :
    (fuel : Nat) → (first : Bool) → List Char → Read (List (String × α))
  | 0, _, _ => .error .truncated
  | fuel + 1, first, s =>
    match memberStart first s with
    | .error e => .error e
    | .ok (false, rest) => .ok ([], rest)
    | .ok (true, rest) =>
      match string rest with
      | .error e => .error e
      | .ok (key, rest) =>
        match colon rest with
        | .error e => .error e
        | .ok ((), rest) =>
          match value rest with
          | .error e => .error e
          | .ok (v, rest) =>
            match members value fuel false rest with
            | .error e => .error e
            | .ok (ms, last) => .ok ((key, v) :: ms, last)

/-- A value that opens at most `depth` brackets or braces at a time. -/
def value (depth : Nat) (s : List Char) : Read Json :=
  match skipGaps s with
  | [] => .error .truncated
  | 'n' :: rest => (word "ull".toList rest).map fun (_, rest) => (.null, rest)
  | 't' :: rest => (word "rue".toList rest).map fun (_, rest) => (.bool true, rest)
  | 'f' :: rest => (word "alse".toList rest).map fun (_, rest) => (.bool false, rest)
  | '-' :: rest => number true rest
  | '"' :: rest => (string rest).map fun (s, rest) => (.str s, rest)
  | '[' :: rest =>
    match depth with
    | 0 => .error .malformed
    | d + 1 => (items (value d) (rest.length + 1) true rest).map fun (vs, rest) => (.arr vs, rest)
  | '{' :: rest =>
    match depth with
    | 0 => .error .malformed
    | d + 1 => (members (value d) (rest.length + 1) true rest).map fun (ms, rest) => (.obj ms, rest)
  | c :: rest => if isDigit c then number false (c :: rest) else .error .malformed

/-- Nothing but gaps may follow. -/
def atEnd (s : List Char) : Bool := (skipGaps s).isEmpty

/-- The value that a whole text stands for. -/
def ofText (text : String) : Except Fault Json :=
  match value nestingLimit text.toList with
  | .error e => .error e
  | .ok (v, rest) => if atEnd rest then .ok v else .error .malformed

end ProofStepper.Json
