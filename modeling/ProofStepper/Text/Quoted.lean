import ProofStepper.Text.Visible

/-!
# Values in messages

Messages show foreign texts between double quotes. A character that would end the
quotation, move the cursor or not show at all is written as an escape. Two writings
are in use: a plain text keeps its single quotes, a path escapes them. A duration is shown
in the largest unit of which it is at least one, without trailing zeros behind the point.
-/

namespace ProofStepper.Text

structure QuoteStyle where
  escapesSingle : Bool

/-- The writing of plain texts. -/
def plainQuote : QuoteStyle := ⟨false⟩

/-- The writing of paths. -/
def pathQuote : QuoteStyle := ⟨true⟩

/-- Hexadecimal digits of `n`, without leading zeros. -/
def hexDigits (n : Nat) : List Char := (Nat.toDigits 16 n)

def escapeChar (style : QuoteStyle) (c : Char) : List Char :=
  if c = '\x00' then ['\\', '0']
  else if c = '\t' then ['\\', 't']
  else if c = '\r' then ['\\', 'r']
  else if c = '\n' then ['\\', 'n']
  else if c = '\\' then ['\\', '\\']
  else if c = '"' then ['\\', '"']
  else if c = '\x27' ∧ style.escapesSingle then ['\\', '\x27']
  else if isCombining c || isHidden c then
    ['\\', 'u', '{'] ++ hexDigits c.toNat ++ ['}']
  else [c]

def quoteWith (style : QuoteStyle) (s : String) : String :=
  String.ofList ('"' :: s.toList.flatMap (escapeChar style) ++ ['"'])

def quote (s : String) : String := quoteWith plainQuote s

def quotePath (s : String) : String := quoteWith pathQuote s

/-- Three digits of thousandths, without the zeros at their end. -/
def thousandths (n : Nat) : String :=
  if n % 10 ≠ 0 then s!"{n / 100}{n / 10 % 10}{n % 10}"
  else if n / 10 % 10 ≠ 0 then s!"{n / 100}{n / 10 % 10}"
  else s!"{n / 100}"

/-- The text of a number of milliseconds. -/
def duration (ms : Nat) : String :=
  if ms = 0 then "0ns"
  else if ms < 1000 then s!"{ms}ms"
  else if ms % 1000 = 0 then s!"{ms / 1000}s"
  else s!"{ms / 1000}.{thousandths (ms % 1000)}s"

end ProofStepper.Text
