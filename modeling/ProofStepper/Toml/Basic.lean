/-!
# TOML values and tables

A table knows how it came about, because that decides what may still be added to it. A
table under a header may be made once, and then a header may only lead through it. A
table that a dotted key made is extended by dotted keys alone, one that was merely
passed through by a header may get a header of its own, and an inline table is final.
-/

namespace ProofStepper.Toml

/-- How a table came about. -/
inductive Origin where
  | header
  | passed
  | dotted
  | inline
deriving DecidableEq, Repr, Inhabited

/-- A number with a point or an exponent, as it is written. -/
inductive Decimal where
  | finite (significand : Nat) (exponent : Int)
  | infinite
  | nan
deriving DecidableEq, Repr, Inhabited

inductive Value where
  | string (s : String)
  | integer (n : Int)
  | decimal (d : Decimal)
  | boolean (b : Bool)
  | moment (text : String)
  | array (ofTables : Bool) (items : List Value)
  | table (origin : Origin) (entries : List (String × Value))
deriving Repr, Inhabited

abbrev Entries := List (String × Value)

/-- A key with the dotted keys before it. -/
structure KeyPath where
  before : List String
  last : String
deriving DecidableEq, Repr, Inhabited

def setEntry (key : String) (v : Value) : Entries → Entries
  | [] => [(key, v)]
  | (k, w) :: rest => if k = key then (k, v) :: rest else (k, w) :: setEntry key v rest

/-- Changes the last value of a list. -/
def changeLast (change : Value → Option Value) : List Value → Option (List Value)
  | [] => none
  | [v] => (change v).map fun v => [v]
  | v :: rest => (changeLast change rest).map (v :: ·)

/-- What is to be done with the entries of a table. -/
abbrev Action := Origin → Entries → Option Entries

/-- Does an action in the table at the end of a path. Tables that are not there are
made; of an array of tables the last one is meant. A dotted path cannot go through a
table that has a header. -/
def within (dotted : Bool) (path : List String) (act : Action) : Action :=
  match path with
  | [] => act
  | key :: rest => fun _ entries =>
    let inTable (origin : Origin) (inner : Entries) : Option Value :=
      (within dotted rest act origin inner).map (.table origin)
    match entries.lookup key with
    | none =>
      (inTable (if dotted then .dotted else .passed) []).map fun v => entries ++ [(key, v)]
    | some (.table origin inner) =>
      if origin = .inline ∨ (dotted ∧ origin = .header) then none
      else (inTable origin inner).map fun v => setEntry key v entries
    | some (.array true items) =>
      let change : Value → Option Value
        | .table origin inner => inTable origin inner
        | _ => none
      (changeLast change items).map fun items => setEntry key (.array true items) entries
    | some _ => none

/-- Adds an entry; a key stands once, and dotted keys and plain ones do not mix. -/
def addEntry (dotted : Bool) (key : String) (v : Value) : Action := fun origin entries =>
  if (origin == .dotted) != dotted then none
  else if (entries.lookup key).isSome then none
  else some (entries ++ [(key, v)])

/-- Adds an entry under a path of dotted keys. -/
def addPair (k : KeyPath) (v : Value) : Action :=
  within (!k.before.isEmpty) k.before (addEntry (!k.before.isEmpty) k.last v)

/-- Begins the table of a header. -/
def beginTable (key : String) : Action := fun _ entries =>
  match entries.lookup key with
  | none => some (entries ++ [(key, .table .header [])])
  | some (.table .passed inner) => some (setEntry key (.table .header inner) entries)
  | some _ => none

/-- Begins one more table of an array. -/
def beginItem (key : String) : Action := fun _ entries =>
  match entries.lookup key with
  | none => some (entries ++ [(key, .array true [.table .header []])])
  | some (.array true items) =>
    some (setEntry key (.array true (items ++ [.table .header []])) entries)
  | some _ => none

inductive Statement where
  | pair (k : KeyPath) (v : Value)
  | header (k : KeyPath)
  | itemHeader (k : KeyPath)

/-- Follows the statements of a document, of which `current` names the table that pairs
go into. -/
def build (current : List String) (entries : Entries) : List Statement → Option Entries
  | [] => some entries
  | .pair k v :: rest =>
    (within false current (addPair k v) .header entries).bind fun entries =>
      build current entries rest
  | .header k :: rest =>
    (within false k.before (beginTable k.last) .header entries).bind fun entries =>
      build (k.before ++ [k.last]) entries rest
  | .itemHeader k :: rest =>
    (within false k.before (beginItem k.last) .header entries).bind fun entries =>
      build (k.before ++ [k.last]) entries rest

/-- What rounds to infinity starts here. -/
def decimalLimit : Nat := Nat.pow 2 1024 - Nat.pow 2 970

/-- A finite number has to round to a finite one. Its count of places decides, except
near the limit. -/
def Decimal.isReadable : Decimal → Bool
  | .finite significand exponent =>
    let places := exponent + (Nat.toDigits 10 significand).length
    if significand = 0 ∨ places < 300 then true
    else if 400 < places then false
    else
      decide (significand * Nat.pow 10 exponent.toNat
        < decimalLimit * Nat.pow 10 (-exponent).toNat)
  | .infinite | .nan => true

mutual

/-- Whole numbers have to fit 128 bits, signed or not, and others have to be finite. -/
def Value.isReadable : Value → Bool
  | .integer n => decide (-(Nat.pow 2 127 : Int) ≤ n) && decide (n < Nat.pow 2 128)
  | .decimal d => d.isReadable
  | .array _ items => areReadable items
  | .table _ entries => entriesReadable entries
  | .string _ => true
  | .boolean _ => true
  | .moment _ => true

def areReadable : List Value → Bool
  | [] => true
  | v :: rest => v.isReadable && areReadable rest

def entriesReadable : List (String × Value) → Bool
  | [] => true
  | (_, v) :: rest => v.isReadable && entriesReadable rest

end

end ProofStepper.Toml
