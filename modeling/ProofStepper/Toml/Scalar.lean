import ProofStepper.Number.Digits
import ProofStepper.Toml.Basic

/-!
# Words and numbers

Values that are written without quotes: truth values, whole numbers in four bases,
numbers with a point or an exponent, and moments in time. Underscores may stand between
digits. Moments are checked for their form and for days and times that exist.
-/

namespace ProofStepper.Toml

/-- The digits of a group; an underscore has a digit on both sides. -/
def digits? (base : Nat) : List Char → Option (List Nat)
  | [] => none
  | [c] => (digitOf? base c).map fun n => [n]
  | c :: '_' :: rest => do
    let n ← digitOf? base c
    let ns ← digits? base rest
    pure (n :: ns)
  | c :: rest => do
    let n ← digitOf? base c
    let ns ← digits? base rest
    pure (n :: ns)

def splitSign : List Char → Option Bool × List Char
  | '+' :: rest => (some false, rest)
  | '-' :: rest => (some true, rest)
  | s => (none, s)

/-- The digits before a point: no zero leads others. -/
def leading? (s : List Char) : Option (List Nat) :=
  match digits? 10 s with
  | some (0 :: _ :: _) => none
  | ns => ns

def unsigned? : List Char → Option Nat
  | '0' :: 'x' :: rest => (digits? 16 rest).map (ofDigits 16)
  | '0' :: 'o' :: rest => (digits? 8 rest).map (ofDigits 8)
  | '0' :: 'b' :: rest => (digits? 2 rest).map (ofDigits 2)
  | s => (leading? s).map (ofDigits 10)

def integer? (s : List Char) : Option Int :=
  match splitSign s with
  | (none, s) => (unsigned? s).map fun n => (n : Int)
  | (some negative, s) =>
    (leading? s).map fun ns => if negative then -(ofDigits 10 ns : Int) else ofDigits 10 ns

def isExponentMark (c : Char) : Bool := c == 'e' || c == 'E'

def exponent? (s : List Char) : Option Int :=
  let (sign, s) := splitSign s
  (digits? 10 s).map fun ns => if sign = some true then -(ofDigits 10 ns : Int) else ofDigits 10 ns

/-- Whole digits, digits after the point and an exponent; one of the last two at least. -/
def finite? (s : List Char) : Option Decimal := do
  let front := s.takeWhile fun c => !isExponentMark c
  let exponent ← match s.dropWhile fun c => !isExponentMark c with
    | [] => pure none
    | _ :: rest => (exponent? rest).map some
  let whole ← leading? (front.takeWhile (· ≠ '.'))
  let fraction ← match front.dropWhile (· ≠ '.') with
    | [] => pure none
    | _ :: rest => (digits? 10 rest).map some
  match exponent, fraction with
  | none, none => none
  | _, _ =>
    let fraction := fraction.getD []
    pure (.finite (ofDigits 10 (whole ++ fraction)) (exponent.getD 0 - fraction.length))

def decimal? (s : List Char) : Option Decimal :=
  let (_, s) := splitSign s
  if s = "inf".toList then some .infinite
  else if s = "nan".toList then some .nan
  else finite? s

/-- Exactly `count` digits at the start of a text. -/
def fixed? (count : Nat) (s : List Char) : Option (Nat × List Char) :=
  let front := s.take count
  if front.length = count ∧ front.all isDigit then
    some (ofDigits 10 (front.map digitValue), s.drop count)
  else none

def mark? (c : Char) : List Char → Option (List Char)
  | d :: rest => if d = c then some rest else none
  | [] => none

def isLeapYear (year : Nat) : Bool := year % 4 == 0 && (year % 100 != 0 || year % 400 == 0)

def daysIn (year month : Nat) : Nat :=
  if month = 2 then (if isLeapYear year then 29 else 28)
  else if month = 4 ∨ month = 6 ∨ month = 9 ∨ month = 11 then 30
  else 31

def date? (s : List Char) : Option (List Char) := do
  let (year, s) ← fixed? 4 s
  let s ← mark? '-' s
  let (month, s) ← fixed? 2 s
  let s ← mark? '-' s
  let (day, s) ← fixed? 2 s
  if 1 ≤ month ∧ month ≤ 12 ∧ 1 ≤ day ∧ day ≤ daysIn year month then some s else none

def secondFraction? (s : List Char) : Option (List Char) :=
  match s with
  | '.' :: rest =>
    match rest with
    | d :: _ => if isDigit d then some (rest.dropWhile isDigit) else none
    | [] => none
  | s => some s

/-- Hours and minutes, then perhaps seconds. -/
def time? (s : List Char) : Option (List Char) := do
  let (hour, s) ← fixed? 2 s
  let s ← mark? ':' s
  let (minute, s) ← fixed? 2 s
  if 23 < hour ∨ 59 < minute then none
  else
    match mark? ':' s with
    | none => some s
    | some s =>
      let (second, s) ← fixed? 2 s
      if 60 < second then none else secondFraction? s

def offset? (s : List Char) : Option (List Char) :=
  match s with
  | [] => some []
  | c :: rest =>
    if c = 'Z' ∨ c = 'z' then some rest
    else if c = '+' ∨ c = '-' then do
      let (hour, s) ← fixed? 2 rest
      let s ← mark? ':' s
      let (minute, s) ← fixed? 2 s
      if 23 < hour ∨ 59 < minute then none else some s
    else none

def isMoment (s : List Char) : Bool :=
  match date? s with
  | none => time? s == some []
  | some [] => true
  | some (c :: rest) =>
    (c == 'T' || c == 't' || c == ' ') && ((time? rest).bind offset?) == some []

def scalar? (s : List Char) : Option Value :=
  if s = "true".toList then some (.boolean true)
  else if s = "false".toList then some (.boolean false)
  else
    match integer? s with
    | some n => some (.integer n)
    | none =>
      match decimal? s with
      | some d => some (.decimal d)
      | none => if isMoment s then some (.moment (String.ofList s)) else none

end ProofStepper.Toml
