import ProofStepper.Json.Basic
import ProofStepper.Number.Shortest
import ProofStepper.Text.Quoted

/-!
# From JSON values to typed ones

A reader of values either answers or says in what way a value does not fit. A shape
lists the fields of a record in order. A record is written as an object, or as the
array of its fields in that order; fields with a default may be left out, from an
array at its end only.

Of an object the members are tried in the order in which they stand, and the first
that does not fit is reported; a field that is missing is reported after them.
Members that are no fields are not looked at. A field may stand only once.
-/

namespace ProofStepper.Json

inductive Mismatch where
  | wrongType (found : Json) (wanted : String)
  | wrongValue (found : Json) (wanted : String)
  | missing (field : String)
  | repeated (field : String)
  | tooShort (size : Nat) (record : String) (fields : Nat)
  | tooLong (size : Nat)
  | unknownChoice (found : String) (choices : List String)
  | noAlternative (name : String)
deriving Repr, Inhabited

def kindText : Json → String
  | .null => "null"
  | .bool b => s!"boolean `{b}`"
  | .int n => s!"integer `{n}`"
  | .real x => "floating point `" ++ Layout.plain.render x ++ "`"
  | .str s => "string " ++ Text.quote s
  | .arr _ => "sequence"
  | .obj _ => "map"

def Mismatch.message : Mismatch → String
  | .wrongType found wanted => "invalid type: " ++ kindText found ++ ", expected " ++ wanted
  | .wrongValue found wanted => "invalid value: " ++ kindText found ++ ", expected " ++ wanted
  | .missing field => s!"missing field `{field}`"
  | .repeated field => s!"duplicate field `{field}`"
  | .tooShort size record fields =>
    s!"invalid length {size}, expected struct {record} with {fields} elements"
  | .tooLong size => s!"invalid length {size}, expected fewer elements in array"
  | .unknownChoice found choices =>
    s!"unknown variant `{found}`, expected "
      ++ String.intercalate " or " (choices.map fun c => "`" ++ c ++ "`")
  | .noAlternative name => s!"data did not match any variant of untagged enum {name}"

abbrev Reading (α : Type) := Except Mismatch α

structure IntRange where
  name : String
  least : Int
  greatest : Int

def IntRange.contains (r : IntRange) (n : Int) : Bool := r.least ≤ n && n ≤ r.greatest

/-- Sizes and indices. -/
def sizeRange : IntRange := ⟨"usize", 0, Nat.pow 2 64 - 1⟩
def word16 : IntRange := ⟨"u16", 0, Nat.pow 2 16 - 1⟩
def word32 : IntRange := ⟨"u32", 0, Nat.pow 2 32 - 1⟩
def word64 : IntRange := ⟨"u64", 0, Nat.pow 2 64 - 1⟩
def signed32 : IntRange := ⟨"i32", -Nat.pow 2 31, Nat.pow 2 31 - 1⟩

def readInt (r : IntRange) : Json → Reading Int
  | .int n => if r.contains n then .ok n else .error (.wrongValue (.int n) r.name)
  | v => .error (.wrongType v r.name)

def readNat (r : IntRange) (v : Json) : Reading Nat := (readInt r v).map Int.toNat

def readSize : Json → Reading Nat := readNat sizeRange

def readBool : Json → Reading Bool
  | .bool b => .ok b
  | v => .error (.wrongType v "a boolean")

def readString : Json → Reading String
  | .str s => .ok s
  | v => .error (.wrongType v "a string")

def readPath : Json → Reading String
  | .str s => .ok s
  | v => .error (.wrongType v "path string")

def readOption {α : Type} (read : Json → Reading α) : Json → Reading (Option α)
  | .null => .ok none
  | v => (read v).map some

def readEach {α : Type} (read : Json → Reading α) : List Json → Reading (List α)
  | [] => .ok []
  | v :: rest =>
    match read v with
    | .error e => .error e
    | .ok a => (readEach read rest).map (a :: ·)

def readList {α : Type} (read : Json → Reading α) : Json → Reading (List α)
  | .arr vs => readEach read vs
  | v => .error (.wrongType v "a sequence")

structure Field where
  name : String
  hasDefault : Bool
  check : Json → Reading Unit

structure Shape where
  name : String
  fields : List Field

def Field.required {α : Type} (name : String) (read : Json → Reading α) : Field :=
  ⟨name, false, fun v => (read v).map fun _ => ()⟩

def Field.withDefault {α : Type} (name : String) (read : Json → Reading α) : Field :=
  ⟨name, true, fun v => (read v).map fun _ => ()⟩

namespace Shape

/-- Tries the members in order, knowing the fields already seen. -/
def checkMembers (fields : List Field) (seen : List String) : Members → Reading Unit
  | [] => .ok ()
  | (key, v) :: rest =>
    match fields.find? fun f => f.name = key with
    | none => checkMembers fields seen rest
    | some f =>
      if key ∈ seen then .error (.repeated key)
      else
        match f.check v with
        | .error e => .error e
        | .ok () => checkMembers fields (key :: seen) rest

/-- The first field that has neither a member nor a default. -/
def missing? (fields : List Field) (members : Members) : Option Field :=
  fields.find? fun f => !f.hasDefault && (find? members f.name).isNone

/-- Pairs items with fields; `index` counts the fields passed. -/
def pairItems (s : Shape) : List Field → Nat → List Json → Reading Members
  | [], _, [] => .ok []
  | [], index, rest => .error (.tooLong (index + rest.length))
  | f :: fields, index, [] =>
    if f.hasDefault then pairItems s fields (index + 1) []
    else .error (.tooShort index s.name s.fields.length)
  | f :: fields, index, v :: rest =>
    match f.check v with
    | .error e => .error e
    | .ok () => (pairItems s fields (index + 1) rest).map ((f.name, v) :: ·)

/-- The members of a record in either writing, all of them fitting. -/
def members (s : Shape) : Json → Reading Members
  | .obj ms =>
    match checkMembers s.fields [] ms with
    | .error e => .error e
    | .ok () =>
      match missing? s.fields ms with
      | some f => .error (.missing f.name)
      | none => .ok ms
  | .arr vs => pairItems s s.fields 0 vs
  | v => .error (.wrongType v ("struct " ++ s.name))

end Shape

/-- The value of a field that has to be there. -/
def field {α : Type} (ms : Members) (name : String) (read : Json → Reading α) : Reading α :=
  match find? ms name with
  | none => .error (.missing name)
  | some v => read v

/-- The value of a field, or its default. -/
def fieldOr {α : Type} (ms : Members) (name : String) (read : Json → Reading α) (default : α) :
    Reading α :=
  match find? ms name with
  | none => .ok default
  | some v => read v

/-- A choice among names, written as the name or as an object with that one key
and no value. -/
def readChoice {α : Type} (choices : List (String × α)) (v : Json) : Reading α :=
  let pick (name : String) : Reading α :=
    match choices.lookup name with
    | some a => .ok a
    | none => .error (.unknownChoice name (choices.map Prod.fst))
  match v with
  | .str name => pick name
  | .obj [(name, inner)] =>
    match pick name with
    | .error e => .error e
    | .ok a =>
      match inner with
      | .null => .ok a
      | other => .error (.wrongType other "unit")
  | .obj ms => .error (.wrongValue (.obj ms) "map with a single key")
  | other => .error (.wrongType other "string or map")

end ProofStepper.Json
