import ProofStepper.Number.Digits
import ProofStepper.Toml.Basic

/-!
# Strings

Four ways to write a string: with escapes or without, on one line or on several. Each
reader starts after the opening quotes and returns the string and the rest.
-/

namespace ProofStepper.Toml

abbrev Read (α : Type) := Option (α × List Char)

def isSpace (c : Char) : Bool := c == ' ' || c == '\t'

/-- Characters that may stand in strings and comments as they are. -/
def isPrinting (c : Char) : Bool := (c == '\t' || ' ' ≤ c) && c != '\x7f'

/-- The rest after the end of a line. -/
def lineBreak? : List Char → Option (List Char)
  | '\n' :: rest => some rest
  | '\r' :: '\n' :: rest => some rest
  | _ => none

/-- A character by its number in hexadecimal digits. -/
def hexChar? (count : Nat) (s : List Char) : Read Char :=
  let front := s.take count
  match wholeNumber? 16 front with
  | none => none
  | some n =>
    if front.length = count ∧ n.isValidChar then some (Char.ofNat n, s.drop count) else none

/-- After the backslash. -/
def escaped? : List Char → Read Char
  | [] => none
  | c :: rest =>
    if c = '"' ∨ c = '\\' then some (c, rest)
    else if c = 'b' then some ('\x08', rest)
    else if c = 't' then some ('\t', rest)
    else if c = 'n' then some ('\n', rest)
    else if c = 'f' then some ('\x0c', rest)
    else if c = 'r' then some ('\r', rest)
    else if c = 'e' then some ('\x1b', rest)
    else if c = 'x' then hexChar? 2 rest
    else if c = 'u' then hexChar? 4 rest
    else if c = 'U' then hexChar? 8 rest
    else none

def literal : List Char → Read (List Char)
  | [] => none
  | c :: rest =>
    if c = '\x27' then some ([], rest)
    else if isPrinting c then (literal rest).map fun (cs, r) => (c :: cs, r)
    else none

def basic : (fuel : Nat) → List Char → Read (List Char)
  | 0, _ => none
  | _ + 1, [] => none
  | fuel + 1, c :: rest =>
    if c = '"' then some ([], rest)
    else if c = '\\' then
      match escaped? rest with
      | none => none
      | some (d, rest) => (basic fuel rest).map fun (cs, r) => (d :: cs, r)
    else if isPrinting c then (basic fuel rest).map fun (cs, r) => (c :: cs, r)
    else none

/-- At the end of a string in triple quotes up to two more quotes belong to it. -/
def closing (quote : Char) (s : List Char) : Read (List Char) :=
  let run := (s.takeWhile (· = quote)).length
  if run < 3 then none
  else
    let kept := min (run - 3) 2
    some (List.replicate kept quote, s.drop (kept + 3))

/-- A line break right after the opening quotes does not count. -/
def afterOpening (s : List Char) : List Char := (lineBreak? s).getD s

def multiLiteral : (fuel : Nat) → List Char → Read (List Char)
  | 0, _ => none
  | _ + 1, [] => none
  | fuel + 1, c :: rest =>
    match closing '\x27' (c :: rest) with
    | some ended => some ended
    | none =>
      match c, rest with
      | '\r', '\n' :: rest =>
        (multiLiteral fuel rest).map fun (cs, r) => ('\r' :: '\n' :: cs, r)
      | c, rest =>
        if isPrinting c ∨ c = '\n' then (multiLiteral fuel rest).map fun (cs, r) => (c :: cs, r)
        else none

/-- Skips spaces and line breaks. -/
def skipBreaks : (fuel : Nat) → List Char → List Char
  | 0, s => s
  | fuel + 1, s =>
    let s := s.dropWhile isSpace
    match lineBreak? s with
    | none => s
    | some rest => skipBreaks fuel rest

/-- After a backslash at the end of a line: all up to the next text. -/
def joined? (s : List Char) : Option (List Char) :=
  (lineBreak? (s.dropWhile isSpace)).map fun rest => skipBreaks (rest.length + 1) rest

def multiBasic : (fuel : Nat) → List Char → Read (List Char)
  | 0, _ => none
  | _ + 1, [] => none
  | fuel + 1, c :: rest =>
    match closing '"' (c :: rest) with
    | some ended => some ended
    | none =>
      match c, rest with
      | '\\', rest =>
        match joined? rest with
        | some rest => multiBasic fuel rest
        | none =>
          match escaped? rest with
          | none => none
          | some (d, rest) => (multiBasic fuel rest).map fun (cs, r) => (d :: cs, r)
      | '\r', '\n' :: rest =>
        (multiBasic fuel rest).map fun (cs, r) => ('\r' :: '\n' :: cs, r)
      | c, rest =>
        if isPrinting c ∨ c = '\n' then (multiBasic fuel rest).map fun (cs, r) => (c :: cs, r)
        else none

def text : Read (List Char) → Read String
  | none => none
  | some (cs, rest) => some (String.ofList cs, rest)

/-- A string on one line, as keys have it. -/
def quotedKey? : List Char → Read String
  | '"' :: rest => text (basic (rest.length + 1) rest)
  | '\x27' :: rest => text (literal rest)
  | _ => none

def quoted? : List Char → Read String
  | '"' :: '"' :: '"' :: rest =>
    text (multiBasic (rest.length + 1) (afterOpening rest))
  | '\x27' :: '\x27' :: '\x27' :: rest =>
    text (multiLiteral (rest.length + 1) (afterOpening rest))
  | s => quotedKey? s

end ProofStepper.Toml
