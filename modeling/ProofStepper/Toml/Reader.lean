import ProofStepper.Text.Visible
import ProofStepper.Toml.Quoted
import ProofStepper.Toml.Scalar

/-!
# Reading TOML

A document is a list of statements, one a line: pairs of a key and a value, headers of
tables, and headers of the tables of an array. Only arrays and inline tables go over
several lines.
-/

namespace ProofStepper.Toml

def skipSpace (s : List Char) : List Char := s.dropWhile isSpace

/-- After `#`, up to the end of the line. -/
def comment : List Char → Option (List Char)
  | [] => some []
  | c :: rest =>
    if c = '\n' then some (c :: rest)
    else if c = '\r' then (lineBreak? (c :: rest)).map fun _ => c :: rest
    else if isPrinting c then comment rest
    else none

/-- The end of a statement: perhaps a comment, then the end of the line or of the text. -/
def lineEnd (s : List Char) : Option (List Char) :=
  let ended (s : List Char) : Option (List Char) := if s = [] then some [] else lineBreak? s
  match skipSpace s with
  | '#' :: rest => (comment rest).bind ended
  | rest => ended rest

/-- Skips spaces, line breaks and comments. -/
def skipLines : (fuel : Nat) → List Char → Option (List Char)
  | 0, _ => none
  | fuel + 1, s =>
    match skipSpace s with
    | [] => some []
    | '#' :: rest => (comment rest).bind (skipLines fuel)
    | c :: rest =>
      match lineBreak? (c :: rest) with
      | some rest => skipLines fuel rest
      | none => some (c :: rest)

def skipGap (s : List Char) : Option (List Char) := skipLines (s.length + 1) s

def isBareChar (c : Char) : Bool := c.isAlphanum || c == '_' || c == '-'

def simpleKey? (s : List Char) : Read String :=
  match quotedKey? s with
  | some found => some found
  | none =>
    match s.takeWhile isBareChar with
    | [] => none
    | front => some (String.ofList front, s.dropWhile isBareChar)

/-- Keys with dots between them; spaces may stand around each. -/
def dottedKey : (fuel : Nat) → List Char → Read KeyPath
  | 0, _ => none
  | fuel + 1, s =>
    match simpleKey? (skipSpace s) with
    | none => none
    | some (key, rest) =>
      match skipSpace rest with
      | '.' :: rest =>
        (dottedKey fuel rest).map fun (k, r) => ({ k with before := key :: k.before }, r)
      | rest => some (⟨[], key⟩, rest)

def key? (s : List Char) : Read KeyPath := dottedKey (s.length + 1) s

/-- What has to follow. -/
def expect (c : Char) (s : List Char) : Option (List Char) :=
  match s with
  | d :: rest => if d = c then some rest else none
  | [] => none

def isScalarChar (c : Char) : Bool :=
  c.isAlphanum || c == '_' || c == '-' || c == '+' || c == '.' || c == ':'

/-- The characters of a value without quotes. A time may follow its date after a space. -/
def scalarText (s : List Char) : List Char × List Char :=
  let front := s.takeWhile isScalarChar
  match s.dropWhile isScalarChar with
  | ' ' :: d :: rest =>
    if date? front == some [] && isDigit d then
      (front ++ ' ' :: (d :: rest).takeWhile isScalarChar, (d :: rest).dropWhile isScalarChar)
    else (front, ' ' :: d :: rest)
  | rest => (front, rest)

/-- Arrays and inline tables lie in one another at most this deep. -/
def nestingLimit : Nat := 79

/-- The items of an array up to its bracket; a comma may follow the last one. -/
def arrayItems (value : List Char → Read Value) : (fuel : Nat) → List Char → Read (List Value)
  | 0, _ => none
  | fuel + 1, s =>
    match skipGap s with
    | none => none
    | some (']' :: rest) => some ([], rest)
    | some s =>
      match value s with
      | none => none
      | some (v, rest) =>
        match skipGap rest with
        | some (',' :: rest) => (arrayItems value fuel rest).map fun (vs, r) => (v :: vs, r)
        | some (']' :: rest) => some ([v], rest)
        | _ => none

/-- The pairs of an inline table up to its brace; a comma may follow the last one. -/
def inlinePairs (value : List Char → Read Value) :
    (fuel : Nat) → Entries → List Char → Read Entries
  | 0, _, _ => none
  | fuel + 1, entries, s =>
    match skipGap s with
    | none => none
    | some ('\x7d' :: rest) => some (entries, rest)
    | some s =>
      match key? s with
      | none => none
      | some (k, rest) =>
        match (expect '=' rest).bind fun rest => value (skipSpace rest) with
        | none => none
        | some (v, rest) =>
          match addPair k v .inline entries, skipGap rest with
          | some entries, some (',' :: rest) => inlinePairs value fuel entries rest
          | some entries, some ('\x7d' :: rest) => some (entries, rest)
          | _, _ => none

/-- A value that opens at most `depth` arrays and inline tables at a time. -/
def value (depth : Nat) (s : List Char) : Read Value :=
  match s with
  | '[' :: rest =>
    match depth with
    | 0 => none
    | d + 1 => (arrayItems (value d) (rest.length + 1) rest).map fun (vs, r) => (.array false vs, r)
  | '\x7b' :: rest =>
    match depth with
    | 0 => none
    | d + 1 =>
      (inlinePairs (value d) (rest.length + 1) [] rest).map fun (es, r) => (.table .inline es, r)
  | '"' :: _ => (quoted? s).map fun (t, r) => (.string t, r)
  | '\x27' :: _ => (quoted? s).map fun (t, r) => (.string t, r)
  | _ =>
    let (front, rest) := scalarText s
    (scalar? front).map fun v => (v, rest)

def pair (s : List Char) : Read Statement :=
  match key? s with
  | none => none
  | some (k, rest) =>
    ((expect '=' rest).bind fun rest => value nestingLimit (skipSpace rest)).map
      fun (v, r) => (.pair k v, r)

def header (s : List Char) : Read Statement :=
  match s with
  | '[' :: rest =>
    match key? rest with
    | some (k, ']' :: ']' :: rest) => some (.itemHeader k, rest)
    | _ => none
  | s =>
    match key? s with
    | some (k, ']' :: rest) => some (.header k, rest)
    | _ => none

/-- The statements of a text. -/
def statements : (fuel : Nat) → List Char → Option (List Statement)
  | 0, _ => none
  | fuel + 1, s =>
    match skipGap s with
    | none => none
    | some [] => some []
    | some (c :: rest) =>
      match if c = '[' then header rest else pair (c :: rest) with
      | none => none
      | some (statement, rest) =>
        (lineEnd rest).bind fun rest => (statements fuel rest).map (statement :: ·)

/-- The entries of the document that a text stands for. -/
def ofText? (text : String) : Option Entries :=
  let s := Text.dropByteOrderMark text.toList
  (statements (s.length + 1) s).bind (build [] [])

end ProofStepper.Toml
