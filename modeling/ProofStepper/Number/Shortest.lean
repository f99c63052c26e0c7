import ProofStepper.Number.Binary64

/-!
# The shortest decimal of a binary64 number

Of all decimals that round to a given binary64 number the ones with the fewest
digits are taken, and of these the nearest. Which digits are written is settled
here on exact naturals; how they are laid out is settled by `Layout`.
-/

namespace ProofStepper

/-- The digits `digits` stand for `digits · 10 ^ exponent`. -/
structure DecimalDigits where
  digits : Nat
  exponent : Int
deriving DecidableEq, Repr

namespace Binary64

/-- The numbers that round to a positive `x`, all in units of `2 ^ (x.exponent - 2)`:
the value, its two ends, and whether the ends belong to it. -/
structure Interval where
  value : Nat
  low : Nat
  high : Nat
  closed : Bool

def interval (x : Binary64) : Interval :=
  let below := if x.mantissa = Nat.pow 2 52 ∧ minExponent < x.exponent then 1 else 2
  { value := 4 * x.mantissa
    low := 4 * x.mantissa - below
    high := 4 * x.mantissa + 2
    closed := x.mantissa % 2 = 0 }

/-- The decimal grid `10 ^ place` in the interval's units, as a quotient. -/
def gridUnit (x : Binary64) (place : Int) : Nat × Nat :=
  let num := if 0 ≤ place then Nat.pow 10 place.toNat else 1
  let den := if 0 ≤ place then 1 else Nat.pow 10 (-place).toNat
  let shift := x.exponent - 2
  if 0 ≤ shift then (num, den * Nat.pow 2 shift.toNat) else (num * Nat.pow 2 (-shift).toNat, den)

/-- The point of the grid `10 ^ place` that is nearest to `x` and rounds to it. -/
def gridPoint? (x : Binary64) (place : Int) : Option Nat :=
  let i := x.interval
  let (num, den) := x.gridUnit place
  let lower := i.value * den / num
  let upper := lower + 1
  let inside (p : Nat) : Bool :=
    let at_ := p * num
    if i.closed then i.low * den ≤ at_ && at_ ≤ i.high * den
    else i.low * den < at_ && at_ < i.high * den
  let lowerGap := i.value * den - lower * num
  let upperGap := upper * num - i.value * den
  match inside lower, inside upper with
  | true, true =>
    if lowerGap < upperGap then some lower
    else if upperGap < lowerGap then some upper
    else if lower % 2 = 0 then some lower else some upper
  | true, false => some lower
  | false, true => some upper
  | false, false => none

/-- Coarser grids first, from `place` downwards. -/
def firstGrid (x : Binary64) : Nat → Int → DecimalDigits
  | 0, place => ⟨(x.gridPoint? place).getD 0, place⟩
  | tries + 1, place =>
    match x.gridPoint? place with
    | some (p + 1) => ⟨p + 1, place⟩
    | _ => x.firstGrid tries (place - 1)

/-- A place above the leading digit of a positive number. A power of two has at most
0.30103 times as many decimal digits as binary ones. -/
def topPlace (x : Binary64) : Int :=
  let (num, den) := x.quotient
  let places (n : Nat) : Int := (n.log2 * 30103 / 100000 : Nat)
  if num < den then 1 - places (den / num) else 1 + places (num / den)

/-- The shortest digits of a positive number. Seventeen digits always suffice, and
no grid above the leading digit has a positive point that rounds to the number. -/
def shortest (x : Binary64) : DecimalDigits := x.firstGrid 20 x.topPlace

end Binary64

namespace DecimalDigits

/-- Drops trailing zeros. -/
def trim : Nat → DecimalDigits → DecimalDigits
  | 0, d => d
  | fuel + 1, d =>
    if d.digits ≠ 0 ∧ d.digits % 10 = 0 then trim fuel ⟨d.digits / 10, d.exponent + 1⟩ else d

end DecimalDigits

/-- How a binary64 number is written: positional while the decimal point lies
after more than `leastPoint` and at most `mostPoint` digits, otherwise with an exponent. -/
structure Layout where
  leastPoint : Int
  mostPoint : Int
  mark : String

namespace Layout

/-- Whole numbers keep one decimal; the exponent has neither a plus sign nor padding. -/
def plain : Layout := ⟨-5, 16, "e"⟩

def zeros (n : Nat) : String := String.ofList (List.replicate n '0')

/-- The digits with a point after the first `point` of them. -/
def place (l : Layout) (d : DecimalDigits) : String :=
  let text := toString d.digits
  let size := text.length
  let point : Int := size + d.exponent
  if 0 ≤ d.exponent ∧ point ≤ l.mostPoint then
    text ++ zeros d.exponent.toNat ++ ".0"
  else if 0 < point ∧ point ≤ l.mostPoint then
    String.ofList (text.toList.take point.toNat) ++ "."
      ++ String.ofList (text.toList.drop point.toNat)
  else if l.leastPoint < point ∧ point ≤ 0 then
    "0." ++ zeros (-point).toNat ++ text
  else
    let rest := String.ofList (text.toList.drop 1)
    String.ofList (text.toList.take 1) ++ (if rest.isEmpty then "" else "." ++ rest)
      ++ l.mark ++ toString (point - 1)

def render (l : Layout) (x : Binary64) : String :=
  (if x.negative then "-" else "")
    ++ (if x.isZero then "0.0" else l.place (x.shortest.trim 400))

end Layout

end ProofStepper
