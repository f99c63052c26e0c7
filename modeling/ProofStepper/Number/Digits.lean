/-!
# Digits

The values of digits up to base sixteen, and whole numbers from their digits.
-/

namespace ProofStepper

def isDigit (c : Char) : Bool := '0' ≤ c && c ≤ '9'

/-- The value of a digit from 0 to 9. -/
def digitValue (c : Char) : Nat := c.toNat - '0'.toNat

/-- The value of a digit in a base; the letters of the bases above ten come in both cases. -/
def digitOf? (base : Nat) (c : Char) : Option Nat :=
  let n :=
    if isDigit c then digitValue c
    else if 'a' ≤ c ∧ c ≤ 'f' then c.toNat - 'a'.toNat + 10
    else if 'A' ≤ c ∧ c ≤ 'F' then c.toNat - 'A'.toNat + 10
    else base
  if n < base then some n else none

/-- The number with the given digits, the highest first. -/
def ofDigits (base : Nat) (ns : List Nat) : Nat := ns.foldl (fun n d => n * base + d) 0

/-- The number that a text of digits stands for; it has one digit at least, and zeros
may lead. -/
def wholeNumber? (base : Nat) (s : List Char) : Option Nat :=
  if s = [] then none else (s.mapM (digitOf? base)).map (ofDigits base)

end ProofStepper
