import ProofStepper.Number.Binary64

/-!
# JSON values

Whole numbers and binary64 numbers are kept apart: `1` and `1.0` are different
values. An object lists its members in the order of the text, repetitions included.
`canonical` gives the form in which every object has each key once, the last writing
of a key wins, and keys are in ascending order.
-/

namespace ProofStepper

inductive Json where
  | null
  | bool (b : Bool)
  | int (n : Int)
  | real (x : Binary64)
  | str (s : String)
  | arr (items : List Json)
  | obj (members : List (String × Json))
deriving Repr, Inhabited

namespace Json

abbrev Members := List (String × Json)

def nat (n : Nat) : Json := .int n

def strings (texts : List String) : Json := .arr (texts.map .str)

/-- The first member with a key. -/
def find? (members : Members) (key : String) : Option Json := members.lookup key

/-- Puts a member at its place among ascending keys, over an earlier one of its key. -/
def putMember (key : String) (value : Json) : Members → Members
  | [] => [(key, value)]
  | (k, v) :: rest =>
    if key = k then (k, value) :: rest
    else if key < k then (key, value) :: (k, v) :: rest
    else (k, v) :: putMember key value rest

mutual

def canonical : Json → Json
  | .arr items => .arr (canonicalItems items)
  | .obj members => .obj (canonicalMembers [] members)
  | .null => .null
  | .bool b => .bool b
  | .int n => .int n
  | .real x => .real x
  | .str s => .str s

def canonicalItems : List Json → List Json
  | [] => []
  | v :: rest => canonical v :: canonicalItems rest

def canonicalMembers (placed : Members) : List (String × Json) → Members
  | [] => placed
  | (k, v) :: rest => canonicalMembers (putMember k (canonical v) placed) rest

end

/-- An object with its keys in ascending order. -/
def object (members : Members) : Json :=
  .obj (members.foldl (fun placed (k, v) => putMember k v placed) [])

/-- The member that stands for an optional value: none where there is no value. -/
def optionalMember (key : String) (value : Option Json) : Members :=
  match value with
  | none => []
  | some v => [(key, v)]

def ofOption {α : Type} (encode : α → Json) : Option α → Json
  | none => .null
  | some a => encode a

end Json

end ProofStepper
