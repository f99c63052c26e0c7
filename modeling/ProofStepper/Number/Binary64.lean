/-!
# Finite binary64 numbers

A finite binary64 number is a sign and a value `mantissa · 2 ^ exponent`, kept in
the one canonical form: the mantissa is below `2 ^ 53`, the exponent lies between
`-1074` and `971`, and a mantissa below `2 ^ 52` occurs only with the least exponent.

Rounding is exact: a quotient of naturals goes to the nearest binary64 number, and
a tie goes to the even mantissa. Infinities and NaN are not covered; a quotient
that rounds beyond the largest finite number has no answer.
-/

namespace ProofStepper

structure Binary64 where
  negative : Bool
  mantissa : Nat
  exponent : Int
deriving DecidableEq, Repr, Inhabited

namespace Binary64

def minExponent : Int := -1074

def maxExponent : Int := 971

def zero (negative : Bool) : Binary64 := ⟨negative, 0, minExponent⟩

def isZero (x : Binary64) : Bool := x.mantissa == 0

/-- The nearest integer to `num / den`, a half going to the even neighbour. -/
def roundHalfEven (num den : Nat) : Nat :=
  let floor := num / den
  let twice := 2 * (num % den)
  if twice < den then floor
  else if den < twice then floor + 1
  else if floor % 2 = 0 then floor else floor + 1

/-- The quotient `num / den` counted in units of `2 ^ exponent`. -/
def scaled (num den : Nat) (exponent : Int) : Nat × Nat :=
  if 0 ≤ exponent then (num, den * Nat.pow 2 exponent.toNat)
  else (num * Nat.pow 2 (-exponent).toNat, den)

/-- The exponent at which `num / den`, both positive, has 53 binary digits before
the point, or the least one. -/
def unitExponent (num den : Nat) : Int :=
  let guess : Int := (num.log2 : Int) - den.log2 - 52
  let (n, d) := scaled num den guess
  let exact := if n / d < Nat.pow 2 52 then guess - 1 else guess
  max exact minExponent

/-- The binary64 number nearest to `num / den`, unless it is too large. -/
def ofQuotient (negative : Bool) (num den : Nat) : Option Binary64 :=
  if num = 0 then some (zero negative)
  else
    let exponent := unitExponent num den
    let (n, d) := scaled num den exponent
    let rounded := roundHalfEven n d
    let result : Binary64 :=
      if rounded = Nat.pow 2 53 then ⟨negative, Nat.pow 2 52, exponent + 1⟩
      else ⟨negative, rounded, exponent⟩
    if maxExponent < result.exponent then none else some result

def ofNat? (n : Nat) : Option Binary64 := ofQuotient false n 1

/-- The absolute value as a quotient. -/
def quotient (x : Binary64) : Nat × Nat :=
  if 0 ≤ x.exponent then (x.mantissa * Nat.pow 2 x.exponent.toNat, 1)
  else (x.mantissa, Nat.pow 2 (-x.exponent).toNat)

/-- The binary64 number nearest to `10 ^ k`, for `k` up to 308. -/
def powerOfTen (k : Nat) : Binary64 := (ofNat? (Nat.pow 10 k)).getD (zero false)

def mul? (x y : Binary64) : Option Binary64 :=
  let (a, b) := x.quotient
  let (c, d) := y.quotient
  ofQuotient (x.negative != y.negative) (a * c) (b * d)

/-- Division by a `y` other than zero. -/
def div? (x y : Binary64) : Option Binary64 :=
  let (a, b) := x.quotient
  let (c, d) := y.quotient
  ofQuotient (x.negative != y.negative) (a * d) (b * c)

/-- The largest power of ten that a scaling step uses. -/
def largestPower : Nat := 308

/-- Scaling down by the largest power, `steps` times, each time rounded. -/
def shrinkSteps (x : Binary64) : Nat → Option Binary64
  | 0 => some x
  | steps + 1 =>
    if x.isZero then some x
    else (x.div? (powerOfTen largestPower)).bind fun y => y.shrinkSteps steps

/-- Scaling down by `10 ^ k` in steps of at most `largestPower`, the last one the
smallest. Three full steps take every number below `2 ^ 64` to zero. -/
def shrink (x : Binary64) (k : Nat) : Option Binary64 :=
  let steps := (k - 1) / largestPower
  (x.shrinkSteps (min steps 3)).bind fun y =>
    if y.isZero then some y else y.div? (powerOfTen (k - steps * largestPower))

/-- Scaling up by `10 ^ k` in one rounded step. Beyond `largestPower` only zero fits. -/
def grow (x : Binary64) (k : Nat) : Option Binary64 :=
  if k ≤ largestPower then x.mul? (powerOfTen k)
  else if x.isZero then some x
  else none

/-- The number `significand · 10 ^ exponent` as a reader of decimal text finds it:
the significand is rounded first, then the scaled value. -/
def ofDecimal? (negative : Bool) (significand : Nat) (exponent : Int) : Option Binary64 :=
  match ofNat? significand with
  | none => none
  | some x =>
    let y := if 0 ≤ exponent then x.grow exponent.toNat else x.shrink (-exponent).toNat
    y.map fun z => { z with negative }

end Binary64

end ProofStepper
