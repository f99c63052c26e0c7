import ProofStepper.Json.Reader

/-!
# Skipping JSON values

A value that nobody asks for is passed over without being read. It has to follow the
grammar, but any number goes, whatever its size, any nesting, and in a string any four
hexadecimal digits after `\u`.
-/

namespace ProofStepper.Json

def isPlainEscape (c : Char) : Bool :=
  c == '"' || c == '\\' || c == '/' || c == 'b' || c == 'f' || c == 'n' || c == 'r' || c == 't'

/-- After the opening quote, past the closing one. -/
def skipString : List Char → Except Fault (List Char)
  | [] => .error .truncated
  | ['\\'] => .error .truncated
  | '\\' :: 'u' :: a :: b :: c :: d :: rest =>
    if (hexFour? a b c d).isSome then skipString rest else .error .malformed
  | '\\' :: e :: rest => if isPlainEscape e then skipString rest else .error .malformed
  | c :: rest =>
    if c = '"' then .ok rest
    else if c < ' ' then .error .malformed
    else skipString rest

/-- At least one digit. -/
def skipDigits (s : List Char) : Except Fault (List Char) :=
  match s with
  | [] => .error .truncated
  | d :: rest => if isDigit d then .ok (rest.dropWhile isDigit) else .error .malformed

/-- After the mark of an exponent. -/
def skipExponent : List Char → Except Fault (List Char)
  | '+' :: rest => skipDigits rest
  | '-' :: rest => skipDigits rest
  | s => skipDigits s

def skipExponentPart (s : List Char) : Except Fault (List Char) :=
  match s with
  | 'e' :: rest => skipExponent rest
  | 'E' :: rest => skipExponent rest
  | _ => .ok s

/-- After the sign. -/
def skipNumber (s : List Char) : Except Fault (List Char) :=
  match s, skipDigits s with
  | _, .error e => .error e
  | '0' :: d :: rest, .ok _ =>
    if isDigit d then .error .malformed
    else if d = '.' then (skipDigits rest).bind skipExponentPart
    else skipExponentPart (d :: rest)
  | _, .ok ('.' :: rest) => (skipDigits rest).bind skipExponentPart
  | _, .ok rest => skipExponentPart rest

mutual

/-- Past a value; every value takes at least one character of fuel. -/
def skipValue : (fuel : Nat) → List Char → Except Fault (List Char)
  | 0, _ => .error .truncated
  | fuel + 1, s =>
    match skipGaps s with
    | [] => .error .truncated
    | 'n' :: rest => (word "ull".toList rest).map (·.2)
    | 't' :: rest => (word "rue".toList rest).map (·.2)
    | 'f' :: rest => (word "alse".toList rest).map (·.2)
    | '-' :: rest => skipNumber rest
    | '"' :: rest => skipString rest
    | '[' :: rest =>
      match skipGaps rest with
      | ']' :: rest => .ok rest
      | _ => skipItems fuel rest
    | '{' :: rest =>
      match skipGaps rest with
      | '}' :: rest => .ok rest
      | _ => skipMembers fuel rest
    | c :: rest => if isDigit c then skipNumber (c :: rest) else .error .malformed

/-- Past the closing bracket. -/
def skipItems : (fuel : Nat) → List Char → Except Fault (List Char)
  | 0, _ => .error .truncated
  | fuel + 1, s =>
    match skipValue fuel s with
    | .error e => .error e
    | .ok rest =>
      match skipGaps rest with
      | [] => .error .truncated
      | ']' :: rest => .ok rest
      | ',' :: rest => skipItems fuel rest
      | _ => .error .malformed

/-- Past the closing brace. -/
def skipMembers : (fuel : Nat) → List Char → Except Fault (List Char)
  | 0, _ => .error .truncated
  | fuel + 1, s =>
    match skipGaps s with
    | [] => .error .truncated
    | '"' :: rest =>
      match (skipString rest).bind fun rest => (colon rest).bind fun r => skipValue fuel r.2 with
      | .error e => .error e
      | .ok rest =>
        match skipGaps rest with
        | [] => .error .truncated
        | '}' :: rest => .ok rest
        | ',' :: rest => skipMembers fuel rest
        | _ => .error .malformed
    | _ => .error .malformed

end

end ProofStepper.Json
