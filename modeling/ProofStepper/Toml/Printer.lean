import ProofStepper.Text.Quoted

/-!
# Writing TOML strings

A string is written in the first of these ways in which it needs no escape: in double
quotes, in single quotes, in three double quotes, in three single quotes. If none will
do it is written in double quotes with escapes, in three if it has line breaks.
-/

namespace ProofStepper.Toml

/-- The longest run of a character. -/
def longestRun (c : Char) : List Char → Nat
  | [] => 0
  | d :: rest => max ((d :: rest).takeWhile (· = c)).length (longestRun c rest)

/-- Control characters other than line breaks and tabs. -/
def needsCode (c : Char) : Bool := (c < ' ' && c != '\n' && c != '\t') || c == '\x7f'

inductive Style where
  | basic
  | literal
  | multiBasic
  | multiLiteral
deriving DecidableEq, Repr

def styleOf (s : List Char) : Style :=
  let coded := s.any needsCode
  let broken := s.contains '\n'
  let doubles := longestRun '"' s
  let singles := longestRun '\x27' s
  let slashed := s.contains '\\'
  if !coded && !slashed && doubles == 0 && !broken then .basic
  else if !coded && singles == 0 && !broken then .literal
  else if !coded && !slashed && doubles ≤ 2 then .multiBasic
  else if !coded && singles ≤ 2 then .multiLiteral
  else if broken then .multiBasic
  else .basic

def padHex (n : Nat) : List Char :=
  let digits := (Nat.toDigits 16 n).map Char.toUpper
  List.replicate (4 - digits.length) '0' ++ digits

/-- A character in a string with escapes. -/
def escapeText (several : Bool) (c : Char) : List Char :=
  if c = '\x08' then ['\\', 'b']
  else if c = '\t' then ['\\', 't']
  else if c = '\n' then (if several then ['\n'] else ['\\', 'n'])
  else if c = '\x0c' then ['\\', 'f']
  else if c = '\r' then ['\\', 'r']
  else if c = '\\' then ['\\', '\\']
  else if needsCode c then ['\\', 'u'] ++ padHex c.toNat
  else [c]

/-- Escapes a text; of quotes in a row, `run` of which have been written as they are,
every one is escaped before which `allowed` others stand. -/
def escapeTexts (several : Bool) (allowed run : Nat) : List Char → List Char
  | [] => []
  | c :: rest =>
    if c = '"' then
      if allowed ≤ run then ['\\', '"'] ++ escapeTexts several allowed 0 rest
      else '"' :: escapeTexts several allowed (run + 1) rest
    else escapeText several c ++ escapeTexts several allowed 0 rest

def stringText (s : String) : String :=
  let cs := s.toList
  let first := if cs.contains '\n' then ['\n'] else []
  String.ofList <| match styleOf cs with
    | .basic => ['"'] ++ escapeTexts false 0 0 cs ++ ['"']
    | .literal => ['\x27'] ++ cs ++ ['\x27']
    | .multiBasic =>
      ['"', '"', '"'] ++ first ++ escapeTexts true 2 0 cs ++ ['"', '"', '"']
    | .multiLiteral =>
      ['\x27', '\x27', '\x27'] ++ first ++ cs ++ ['\x27', '\x27', '\x27']

end ProofStepper.Toml
