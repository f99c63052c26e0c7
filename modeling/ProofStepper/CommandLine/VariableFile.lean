import ProofStepper.Disk.Basic
import ProofStepper.Text.Visible

/-!
# Variables and their files

A program is started with variables, each a name with a value, and a file may add to them.
A file of variables has an assignment on each line. A variable that is there already
keeps its value. The first line that cannot be read ends the file; what stood before it
counts.

An assignment goes on over the end of its line while a quote is open. A value may be
quoted in whole or in part: single quotes keep everything as it is, double quotes allow
escapes, and but for single quotes a dollar brings in the value of a variable.
-/

namespace ProofStepper.CommandLine

structure Variables where
  entries : List (String × String) := []
deriving DecidableEq, Repr, Inhabited

namespace Variables

def value? (vs : Variables) (name : String) : Option String := vs.entries.lookup name

/-- Gives a value to a name that has none yet. -/
def define (vs : Variables) (name value : String) : Variables :=
  if (vs.value? name).isSome then vs else ⟨vs.entries ++ [(name, value)]⟩

end Variables

end ProofStepper.CommandLine

namespace ProofStepper.CommandLine.VariableFile

open Text (isBlank trimEndChars)

/-- What stands open before a character of a line. -/
inductive Quoting where
  | none
  | afterBlank
  | escape
  | weak
  | weakEscape
  | strong
  | strongEscape
deriving DecidableEq, Repr

namespace Quoting

/-- After a character outside of quotes. -/
def opened (c : Char) : Quoting :=
  if c = '\\' then escape
  else if c = '"' then weak
  else if c = '\x27' then strong
  else none

def next (c : Char) : Quoting → Quoting
  | none => if isBlank c ∧ c ≠ '\n' ∧ c ≠ '\r' then afterBlank else opened c
  | afterBlank => opened c
  | escape => none
  | weak => if c = '\\' then weakEscape else if c = '"' then none else weak
  | weakEscape => weak
  | strong => if c = '\\' then strongEscape else if c = '\x27' then none else strong
  | strongEscape => strong

end Quoting

/-- What follows the end of the line. -/
def afterLine (s : List Char) : List Char := (s.dropWhile (· ≠ '\n')).drop 1

/-- The characters of a line that has begun, without a comment at its end, and what
follows it. Fails if the text ends in the middle. -/
def lineFrom : Quoting → List Char → Option (List Char × List Char)
  | q, [] => if q = .none then some ([], []) else none
  | q, c :: rest =>
    if q = .afterBlank ∧ c = '#' then some ([], afterLine rest)
    else if c = '\n' ∧ q.next c = .none then some ([], rest)
    else (lineFrom (q.next c) rest).map fun (line, r) => (c :: line, r)

/-- The first line of a text and what follows it. A line that is a comment as a whole
counts as empty. -/
def line? (s : List Char) : Option (List Char × List Char) :=
  match (s.takeWhile (· ≠ '\n')).dropWhile isBlank with
  | '#' :: _ => some ([], afterLine s)
  | _ => lineFrom .none s

/-- What a reader of a value is in the midst of. The flag tells whether double quotes
are open around it. -/
inductive Reading where
  | text (quoted : Bool)
  | strong
  | escape (quoted : Bool)
  | name (quoted : Bool) (front : List Char)
  | braced (quoted : Bool) (front : List Char)
  | ended
  | comment
deriving DecidableEq, Repr

/-- The characters that stand for themselves after a backslash. -/
def escapable : List Char := ['\\', '\x27', '"', '$', ' ']

def substituted (vs : Variables) (name : List Char) : List Char :=
  ((vs.value? (String.ofList name)).getD "").toList

namespace Reading

/-- What follows a character, and the characters that it adds to the value. The
character that ends a name without braces stands for itself, a dollar apart. -/
def next? (vs : Variables) (c : Char) : Reading → Option (Reading × List Char)
  | text quoted =>
    if c = '$' then some (name quoted [], [])
    else if c = '\\' then some (escape quoted, [])
    else if c = '"' then some (text (!quoted), [])
    else if quoted then some (text true, [c])
    else if c = '\x27' then some (strong, [])
    else if c = ' ' ∨ c = '\t' then some (ended, [])
    else some (text false, [c])
  | strong => if c = '\x27' then some (text false, []) else some (strong, [c])
  | escape quoted =>
    if escapable.contains c then some (text quoted, [c])
    else if c = 'n' then some (text quoted, ['\n'])
    else none
  | name quoted front =>
    if c.isAlphanum then some (name quoted (front ++ [c]), [])
    else if c = '\x7b' ∧ front = [] then some (braced quoted [], [])
    else if c = '$' then some (name quoted [], substituted vs front)
    else some (text quoted, substituted vs front ++ [c])
  | braced quoted front =>
    if c = '\x7d' then some (text quoted, substituted vs front)
    else some (braced quoted (front ++ [c]), [])
  | ended =>
    if c = ' ' ∨ c = '\t' then some (ended, [])
    else if c = '#' then some (comment, [])
    else none
  | comment => some (comment, [])

/-- What the end of the line adds; it must not come within quotes or braces. -/
def last? (vs : Variables) : Reading → Option (List Char)
  | text quoted => if quoted then none else some []
  | strong => none
  | escape quoted => if quoted then none else some []
  | name quoted front => if quoted then none else some (substituted vs front)
  | braced _ _ => none
  | ended => some []
  | comment => some []

end Reading

def valueFrom (vs : Variables) : Reading → List Char → Option (List Char)
  | r, [] => r.last? vs
  | r, c :: rest => do
    let (r, front) ← r.next? vs c
    let later ← valueFrom vs r rest
    pure (front ++ later)

def isNameStart (c : Char) : Bool := c.isAlpha || c == '_'

def isNameChar (c : Char) : Bool := c.isAlphanum || c == '_' || c == '.'

def name? : List Char → Option (List Char × List Char)
  | [] => none
  | c :: rest =>
    if isNameStart c then
      some ((c :: rest).takeWhile isNameChar, ((c :: rest).dropWhile isNameChar).dropWhile isBlank)
    else none

def equalSign? : List Char → Option (List Char)
  | '=' :: rest => some (rest.dropWhile isBlank)
  | _ => none

/-- The name of an assignment and what stands after its sign. The word `export` may
stand before the name, but is a name itself right before the sign. -/
def target? (s : List Char) : Option (List Char × List Char) := do
  let (name, rest) ← name? s
  match equalSign? rest with
  | some value => pure (name, value)
  | none =>
    if name = "export".toList then
      let (name, rest) ← name? rest
      let value ← equalSign? rest
      pure (name, value)
    else none

inductive Line where
  | blank
  | assignment (name value : String)
deriving DecidableEq, Repr

def Line.ofChars? (vs : Variables) (line : List Char) : Option Line :=
  let startsBlank : List Char → Bool
    | [] => true
    | c :: _ => c == '#'
  let s := (trimEndChars line).dropWhile isBlank
  if startsBlank s then some .blank
  else do
    let (name, rest) ← target? s
    let value ← if startsBlank rest then some [] else valueFrom vs (.text false) rest
    pure (.assignment (String.ofList name) (String.ofList value))

def defineAll (vs : Variables) : (fuel : Nat) → List Char → Variables
  | 0, _ => vs
  | _, [] => vs
  | fuel + 1, s =>
    match line? s with
    | none => vs
    | some (line, rest) =>
      match Line.ofChars? vs line with
      | none => vs
      | some .blank => defineAll vs fuel rest
      | some (.assignment name value) => defineAll (vs.define name value) fuel rest

/-- Variables together with those that a text defines. -/
def define (vs : Variables) (s : List Char) : Variables :=
  let s := Text.dropByteOrderMark s
  defineAll vs (s.length + 1) s

/-- Bytes up to the end of a line, and the lines after it. -/
def byteLines : List Nat → List (List Nat)
  | [] => []
  | b :: rest =>
    match byteLines rest with
    | [] => [[b]]
    | line :: later => if b = 10 then [b] :: line :: later else (b :: line) :: later

def decode? (bytes : List Nat) : Option String :=
  String.fromUTF8? ⟨(bytes.map UInt8.ofNat).toArray⟩

/-- The text of a file up to the first line that is no text. -/
def legible : Content → List Char
  | .text s => s.toList
  | .bytes bs => ((byteLines bs).map decode?).takeWhile Option.isSome |>.flatMap fun line =>
      (line.getD "").toList

/-- The file in the directory where a program is started. -/
def localFile : String := ".env"

/-- Variables together with those in a file, if there is such a file. -/
def load (disk : Disk) (vs : Variables) (path : String) : Variables :=
  match disk.read path with
  | none => vs
  | some content => define vs (legible content)

end ProofStepper.CommandLine.VariableFile
