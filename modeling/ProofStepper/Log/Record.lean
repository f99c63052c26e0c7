/-!
# Proof logs

A proof log lists the symbolic states of one verification in the order in which they
were made, with the problems that the verifier found. A record's place in the list is
its index. `parent` names the state that a state was derived from; nothing is assumed
about it, and a log may name parents that do not exist or that form cycles.
-/

namespace ProofStepper

/-- A place in a source file, lines and characters counted from zero. -/
structure Position where
  line : Nat := 0
  character : Nat := 0
deriving DecidableEq, Repr, Inhabited

/-- What becomes of a sum that is too large for its word: the released build goes on from
zero, and a build that checks its sums stops there without an answer. -/
inductive Build where
  | released
  | checked
deriving DecidableEq, Repr, Inhabited

/-- The word after `n`, if a build comes to it. -/
def Build.next? (b : Build) (n : UInt32) : Option UInt32 :=
  match b with
  | .released => some (n + 1)
  | .checked => if n + 1 = 0 then none else some (n + 1)

namespace Position

/-- Editors count from one. Lines and characters are words of 32 bits, and this is what the
released build makes of the last of them. -/
def display (p : Position) : String := s!"{p.line.toUInt32 + 1}:{p.character.toUInt32 + 1}"

/-- The position as a build displays it. -/
def display? (p : Position) (b : Build) : Option String := do
  let line ← b.next? p.line.toUInt32
  let character ← b.next? p.character.toUInt32
  return s!"{line}:{character}"

end Position

structure Record where
  parent : Option Nat := none
  isBranch : Bool := false
  isShown : Bool := false
  verifiable : Nat := 0
  fileName : String := ""
  methodName : String := ""
  methodType : String := ""
  methodOffset : Nat := 0
  position : Position := {}
  formula : Option String := none
  pathConditions : List String := []
  store : List String := []
  heap : List String := []
deriving DecidableEq, Repr, Inhabited

namespace Record

def new (verifiable : Nat) (parent : Option Nat) : Record := { verifiable, parent }

def branch (r : Record) : Record := { r with isBranch := true }

def shown (r : Record) : Record := { r with isShown := true }

def inMethod (r : Record) (fileName methodType methodName : String) (methodOffset : Nat) : Record :=
  { r with fileName, methodType, methodName, methodOffset }

def placed (r : Record) (line character : Nat) : Record := { r with position := ⟨line, character⟩ }

def withConditions (r : Record) (pathConditions : List String) : Record := { r with pathConditions }

end Record

/-- A problem that the verifier reported for a place. -/
structure Diagnostic where
  position : Position
  message : String
deriving DecidableEq, Repr, Inhabited

structure ProofLog where
  steps : List Record := []
  diagnostics : List Diagnostic := []
deriving DecidableEq, Repr, Inhabited

namespace ProofLog

def size (log : ProofLog) : Nat := log.steps.length

def isEmpty (log : ProofLog) : Bool := log.steps.isEmpty

end ProofLog

end ProofStepper
