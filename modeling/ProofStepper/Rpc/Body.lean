import ProofStepper.Json.Skip
import ProofStepper.Rpc.Message

/-!
# Requests as they come in

The text of a request is read from left to right and its members are decoded as they are
met, so that the first problem in the text is the one that counts: the text may break
off or go wrong, or a member may not have the right form. Members without meaning are
skipped. A request may also be written as the list of its members.
-/

namespace ProofStepper.Rpc

open Json

inductive BodyFault where
  | notJson
  | wrongShape
deriving DecidableEq, Repr, Inhabited

abbrev BodyRead (α : Type) := Except BodyFault (α × List Char)

def ofRead {α : Type} : Read α → BodyRead α
  | .ok r => .ok r
  | .error _ => .error .notJson

def ofSkip : Except Fault (List Char) → BodyRead Unit
  | .ok rest => .ok ((), rest)
  | .error _ => .error .notJson

/-- Nesting that is left within a request. -/
def innerLimit : Nat := nestingLimit - 1

/-- A string. Of another value only the first part is read before it is refused. -/
def readText (s : List Char) : BodyRead String :=
  match skipGaps s with
  | '"' :: rest => ofRead (string rest)
  | '[' :: _ => .error .wrongShape
  | '{' :: _ => .error .wrongShape
  | rest =>
    match value 0 rest with
    | .error _ => .error .notJson
    | .ok _ => .error .wrongShape

/-- Any value; null counts as none. -/
def readAny (s : List Char) : BodyRead (Option Json) :=
  match value innerLimit s with
  | .error _ => .error .notJson
  | .ok (.null, rest) => .ok (none, rest)
  | .ok (v, rest) => .ok (some v.canonical, rest)

def readId (s : List Char) : BodyRead Id :=
  match value innerLimit s with
  | .error _ => .error .notJson
  | .ok (v, rest) =>
    match Id.ofJson v with
    | .error _ => .error .wrongShape
    | .ok id => .ok (id, rest)

/-- The members that were met so far. -/
structure Draft where
  jsonrpc : Option String := none
  method : Option String := none
  params : Option (Option Json) := none
  id : Option Id := none

/-- The request, if nothing is missing. -/
def Draft.request (d : Draft) : Except BodyFault Request :=
  match d.jsonrpc, d.method, d.id with
  | some jsonrpc, some method, some id => .ok { jsonrpc, method, params := d.params.join, id }
  | _, _, _ => .error .wrongShape

/-- Reads the member with a key, up to which the text has been read. A member that was
met before is refused before its colon. -/
def readMember (d : Draft) (key : String) (s : List Char) : BodyRead Draft :=
  let after {α : Type} (met : Bool) (read : List Char → BodyRead α) : BodyRead α :=
    if met then .error .wrongShape
    else
      match colon s with
      | .error _ => .error .notJson
      | .ok ((), rest) => read rest
  match key with
  | "jsonrpc" =>
    (after d.jsonrpc.isSome readText).map fun (v, r) => ({ d with jsonrpc := some v }, r)
  | "method" => (after d.method.isSome readText).map fun (v, r) => ({ d with method := some v }, r)
  | "params" => (after d.params.isSome readAny).map fun (v, r) => ({ d with params := some v }, r)
  | "id" => (after d.id.isSome readId).map fun (v, r) => ({ d with id := some v }, r)
  | _ =>
    (after false fun rest => ofSkip (skipValue (rest.length + 1) rest)).map fun ((), r) => (d, r)

/-- The members of an object up to its closing brace. -/
def readMembers : (fuel : Nat) → (first : Bool) → Draft → List Char → BodyRead Draft
  | 0, _, _, _ => .error .notJson
  | fuel + 1, first, d, s =>
    match memberStart first s with
    | .error _ => .error .notJson
    | .ok (false, rest) => .ok (d, rest)
    | .ok (true, rest) =>
      match string rest with
      | .error _ => .error .notJson
      | .ok (key, rest) =>
        match readMember d key rest with
        | .error e => .error e
        | .ok (d, rest) => readMembers fuel false d rest

/-- The start of an item; none at the closing bracket. -/
def itemStart (first : Bool) (s : List Char) : BodyRead Bool :=
  match skipGaps s with
  | [] => .error .notJson
  | ']' :: _ => .ok (false, s)
  | c :: rest =>
    if first then .ok (true, c :: rest)
    else if c = ',' then
      match skipGaps rest with
      | [] => .error .notJson
      | ']' :: _ => .error .notJson
      | after => .ok (true, after)
    else .error .notJson

def readItem {α : Type} (first : Bool) (read : List Char → BodyRead α) (s : List Char) :
    BodyRead (Option α) :=
  match itemStart first s with
  | .error e => .error e
  | .ok (false, rest) => .ok (none, rest)
  | .ok (true, rest) => (read rest).map fun (v, r) => (some v, r)

/-- An item that has to be there. -/
def needItem {α : Type} (first : Bool) (read : List Char → BodyRead α) (s : List Char) :
    BodyRead α :=
  match readItem first read s with
  | .error e => .error e
  | .ok (none, _) => .error .wrongShape
  | .ok (some v, rest) => .ok (v, rest)

/-- A request as a list of four items; nothing may follow them in the list. -/
def readItems (s : List Char) : BodyRead Request :=
  match needItem true readText s with
  | .error e => .error e
  | .ok (jsonrpc, s) =>
    match needItem false readText s with
    | .error e => .error e
    | .ok (method, s) =>
      match readItem false readAny s with
      | .error e => .error e
      | .ok (params, s) =>
        match needItem false readId s with
        | .error e => .error e
        | .ok (id, s) =>
          match skipGaps s with
          | ']' :: rest => .ok ({ jsonrpc, method, params := params.join, id }, rest)
          | _ => .error .notJson

def readRequest (s : List Char) : BodyRead Request :=
  match skipGaps s with
  | '{' :: rest =>
    match readMembers (rest.length + 1) true {} rest with
    | .error e => .error e
    | .ok (d, rest) => d.request.map fun r => (r, rest)
  | '[' :: rest => readItems rest
  | rest =>
    match value 0 rest with
    | .error _ => .error .notJson
    | .ok _ => .error .wrongShape

/-- The request that a text stands for. -/
def Request.ofText (text : String) : Except BodyFault Request :=
  match readRequest text.toList with
  | .error e => .error e
  | .ok (r, rest) => if atEnd rest then .ok r else .error .notJson

end ProofStepper.Rpc
