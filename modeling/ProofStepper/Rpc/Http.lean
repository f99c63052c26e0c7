import ProofStepper.Rpc.Body
import ProofStepper.Rpc.Port
import ProofStepper.Rpc.Server

/-!
# Calls over HTTP

Requests are posted to `/` as JSON; `/health` tells that the server is there. A request
that cannot be taken is answered by its status alone.
-/

namespace ProofStepper.Rpc.Http

def isTokenChar (c : Char) : Bool :=
  c.isAlphanum || "!#$%&\x27+-.^_\x60|~".toList.contains c

def isQuotedChar (c : Char) : Bool := 31 < c.toNat && c.toNat < 127

/-- After a parameter in quotes: blanks up to the end or the next parameter. -/
def afterQuoted : List Char → Option (List Char)
  | [] => some []
  | ';' :: rest => some rest
  | ' ' :: rest => afterQuoted rest
  | _ => none

/-- A value after `=`, in quotes or not, and what follows its semicolon. -/
def parameterValue (s : List Char) : Option (List Char) :=
  match s with
  | '"' :: rest =>
    match rest with
    | [] => none
    | c :: more =>
      if !isQuotedChar c then none
      else
        match more.dropWhile fun d => isQuotedChar d && d ≠ '"' with
        | '"' :: after => afterQuoted after
        | _ => none
  | [] => some []
  | c :: _ =>
    if !isTokenChar c then none
    else
      match s.dropWhile isTokenChar with
      | [] => some []
      | ';' :: rest => some rest
      | _ => none

/-- Parameters are names with values, separated by semicolons; blanks may precede a
name. -/
def areParameters : (fuel : Nat) → List Char → Bool
  | 0, _ => false
  | fuel + 1, s =>
    match s.dropWhile (· = ' ') with
    | [] => true
    | c :: rest =>
      if !isTokenChar c then false
      else
        match (c :: rest).dropWhile isTokenChar with
        | '=' :: value =>
          match parameterValue value with
          | none => false
          | some rest => areParameters fuel rest
        | _ => false

/-- What stands before and after the last plus sign, if one stands behind the start. -/
def splitSuffix (subtype : List Char) : List Char × Option (List Char) :=
  let suffix := (subtype.reverse.takeWhile (· ≠ '+')).reverse
  let front := subtype.take (subtype.length - suffix.length - 1)
  if suffix.length < subtype.length ∧ front ≠ [] then (front, some suffix) else (subtype, none)

def lower (s : List Char) : List Char := s.map Char.toLower

/-- The content types under which a request may come: `application/json` and those with
the suffix `+json`, in any case and with any parameters. -/
def isJson (contentType : String) : Bool :=
  let s := contentType.toList
  let kind := s.takeWhile isTokenChar
  match s.dropWhile isTokenChar with
  | '/' :: rest =>
    let subtype := rest.takeWhile isTokenChar
    let (front, suffix) := splitSuffix subtype
    lower kind = "application".toList
      && (lower front = "json".toList || suffix.map lower = some "json".toList)
      && match rest.dropWhile isTokenChar with
        | [] => true
        | ';' :: parameters => areParameters (parameters.length + 1) parameters
        | _ => false
  | _ => false

structure Incoming where
  method : String := "POST"
  path : String := "/"
  contentType : Option String := some "application/json"
  body : String := ""
deriving DecidableEq, Repr, Inhabited

/-- A status and, where the request was served, what is sent with it. -/
structure Outgoing where
  status : Nat
  body : Option Json := none
deriving Repr, Inhabited

/-- The part of a path before its query. -/
def pathOnly (path : String) : String := String.ofList (path.toList.takeWhile (· ≠ '?'))

def health : Json :=
  .obj [
    ("status", .str "healthy"),
    ("service", .str "vdb-debug-rpc-server"),
    ("version", .str Release.version)]

/-- Takes a request: its content type is looked at before its text. -/
def request (r : Incoming) : Except Nat Request :=
  if !(r.contentType.any isJson) then .error 415
  else
    match Request.ofText r.body with
    | .ok request => .ok request
    | .error .notJson => .error 400
    | .error .wrongShape => .error 422

def serve (capture : Heap.Capture) (t : Scheduler.Timeline) (r : Incoming) :
    Reply Scheduler.Timeline Outgoing :=
  let closed (status : Nat) : Reply Scheduler.Timeline Outgoing := ⟨⟨status, none⟩, t, []⟩
  if r.method = "OPTIONS" then closed 200
  else
    match pathOnly r.path with
    | "/" =>
      if r.method = "POST" then
        match request r with
        | .error status => closed status
        | .ok request =>
          let reply := Rpc.serve capture t request
          ⟨⟨200, some reply.answer.toJson⟩, reply.state, reply.notices⟩
      else closed 405
    | "/health" =>
      if r.method = "GET" then ⟨⟨200, some health⟩, t, []⟩
      else if r.method = "HEAD" then closed 200
      else closed 405
    | _ => closed 404

end ProofStepper.Rpc.Http
