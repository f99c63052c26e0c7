import ProofStepper.Json.Basic
import ProofStepper.Number.Shortest

/-!
# Writing JSON text

Two writings of one value: the compact one without any gap, and the spread one with
a member or item per line and two spaces per level. In a string only the quote, the
backslash and the control characters are escaped; everything else stands as it is.
-/

namespace ProofStepper.Json

def hexLetter (n : Nat) : Char := "0123456789abcdef".toList.getD n '0'

def escapedChar (c : Char) : List Char :=
  if c = '"' then ['\\', '"']
  else if c = '\\' then ['\\', '\\']
  else if c = '\x08' then ['\\', 'b']
  else if c = '\x0c' then ['\\', 'f']
  else if c = '\n' then ['\\', 'n']
  else if c = '\r' then ['\\', 'r']
  else if c = '\t' then ['\\', 't']
  else if c < ' ' then
    ['\\', 'u', '0', '0', hexLetter (c.toNat / 16), hexLetter (c.toNat % 16)]
  else [c]

/-- A string between its quotes. -/
def stringText (s : String) : List Char := '"' :: s.toList.flatMap escapedChar ++ ['"']

def intText (n : Int) : List Char := (toString n).toList

def scalarText : Json → List Char
  | .null => "null".toList
  | .bool true => "true".toList
  | .bool false => "false".toList
  | .int n => intText n
  | .real x => (Layout.plain.render x).toList
  | .str s => stringText s
  | .arr _ => []
  | .obj _ => []

mutual

def compactText : Json → List Char
  | .arr items => '[' :: itemsText true items ++ [']']
  | .obj members => '{' :: membersText true members ++ ['}']
  | .null => scalarText .null
  | .bool b => scalarText (.bool b)
  | .int n => scalarText (.int n)
  | .real x => scalarText (.real x)
  | .str s => scalarText (.str s)

def itemsText (first : Bool) : List Json → List Char
  | [] => []
  | v :: rest => (if first then [] else [',']) ++ compactText v ++ itemsText false rest

def membersText (first : Bool) : List (String × Json) → List Char
  | [] => []
  | (k, v) :: rest =>
    (if first then [] else [',']) ++ stringText k ++ ':' :: compactText v
      ++ membersText false rest

end

def indent (level : Nat) : List Char := '\n' :: List.replicate (2 * level) ' '

mutual

def spreadText (level : Nat) : Json → List Char
  | .arr [] => ['[', ']']
  | .arr (v :: rest) =>
    '[' :: indent (level + 1) ++ spreadText (level + 1) v ++ spreadItems (level + 1) rest
      ++ indent level ++ [']']
  | .obj [] => ['{', '}']
  | .obj ((k, v) :: rest) =>
    '{' :: indent (level + 1) ++ stringText k ++ [':', ' '] ++ spreadText (level + 1) v
      ++ spreadMembers (level + 1) rest ++ indent level ++ ['}']
  | .null => scalarText .null
  | .bool b => scalarText (.bool b)
  | .int n => scalarText (.int n)
  | .real x => scalarText (.real x)
  | .str s => scalarText (.str s)

def spreadItems (level : Nat) : List Json → List Char
  | [] => []
  | v :: rest => ',' :: indent level ++ spreadText level v ++ spreadItems level rest

def spreadMembers (level : Nat) : List (String × Json) → List Char
  | [] => []
  | (k, v) :: rest =>
    ',' :: indent level ++ stringText k ++ [':', ' '] ++ spreadText level v
      ++ spreadMembers level rest

end

def compact (v : Json) : String := String.ofList (compactText v)

def spread (v : Json) : String := String.ofList (spreadText 0 v)

end ProofStepper.Json
