import ProofStepper.Disk.Path

/-!
# The disk

Files and directories by their location, which is the list of names that leads to them
from the root. A path is followed name by name: each but the last has to be a directory
that exists, and two dots lead back out of it. What cannot be done is told by its cause.
Besides, the system may refuse to write at a location for reasons of its own, such as a
missing permission or a lack of space.
-/

namespace ProofStepper

inductive Content where
  | text (s : String)
  | bytes (bs : List Nat)
deriving DecidableEq, Repr, Inhabited

/-- Bytes that are UTF-8 are a text. -/
def Content.ofBytes (bytes : ByteArray) : Content :=
  match String.fromUTF8? bytes with
  | some s => .text s
  | none => .bytes (bytes.toList.map UInt8.toNat)

inductive Node where
  | directory
  | file (content : Content)
deriving DecidableEq, Repr, Inhabited

abbrev Location := List String

inductive DiskFault where
  | notFound
  | alreadyThere
  | notDirectory
  | isDirectory
  | other (code : Nat) (text : String)
deriving DecidableEq, Repr, Inhabited

def DiskFault.message : DiskFault → String
  | notFound => "No such file or directory (os error 2)"
  | alreadyThere => "File exists (os error 17)"
  | notDirectory => "Not a directory (os error 20)"
  | isDirectory => "Is a directory (os error 21)"
  | other code text => s!"{text} (os error {code})"

/-- What comes of writing where the system refuses it: the cause that it tells, and what the
file holds then if writing it had begun. -/
structure Refusal where
  cause : DiskFault
  left : Option Content := none
deriving DecidableEq, Repr, Inhabited

/-- `cwd` is where relative paths start. -/
structure Disk where
  cwd : Location := []
  nodes : List (Location × Node) := []
  refusals : List (Location × Refusal) := []
deriving DecidableEq, Repr, Inhabited

namespace Disk

/-- What lies at a location. The directories on the way to `cwd` are always there. -/
def find? (d : Disk) (l : Location) : Option Node :=
  if l.isPrefixOf d.cwd then some .directory else d.nodes.lookup l

/-- Puts a node at a location, in place of one that was there. -/
def put (d : Disk) (l : Location) (n : Node) : Disk :=
  { d with nodes := d.nodes.filter (fun e => e.1 ≠ l) ++ [(l, n)] }

/-- Where one more name leads from a directory, if that is a directory again. -/
def enter (d : Disk) (here : Location) (name : String) : Except DiskFault Location :=
  if name = "." then .ok here
  else if name = ".." then .ok here.dropLast
  else
    match d.find? (here ++ [name]) with
    | some .directory => .ok (here ++ [name])
    | some (.file _) => .error .notDirectory
    | none => .error .notFound

def enterAll (d : Disk) (here : Location) : List String → Except DiskFault Location
  | [] => .ok here
  | name :: rest =>
    match d.enter here name with
    | .error e => .error e
    | .ok there => enterAll d there rest

/-- What a path ends in: a directory named by slashes and dots alone, or an entry that
may exist or not. -/
inductive Goal where
  | directory (l : Location)
  | entry (l : Location) (slash : Bool)
deriving DecidableEq, Repr

def goal (d : Disk) (path : String) : Except DiskFault Goal :=
  let all := ((Path.pieces path.toList).filter (· ≠ [])).map String.ofList
  let start := if Path.isAbsolute path then [] else d.cwd
  match all.getLast? with
  | none => if path = "" then .error .notFound else .ok (.directory [])
  | some last =>
    match d.enterAll start all.dropLast with
    | .error e => .error e
    | .ok here =>
      if last = "." then .ok (.directory here)
      else if last = ".." then .ok (.directory here.dropLast)
      else .ok (.entry (here ++ [last]) (path.toList.getLast? == some '/'))

/-- The locations that a path passes, its end included, whatever lies there. -/
def passed (d : Disk) (path : String) : List Location :=
  let start := if Path.isAbsolute path then [] else d.cwd
  let next (here : Location) (name : String) : Location :=
    if name = ".." then here.dropLast else here ++ [name]
  (Path.names path).scanl next start |>.drop 1

def isDirectory (d : Disk) (path : String) : Bool :=
  match d.goal path with
  | .ok (.directory _) => true
  | .ok (.entry l _) => d.find? l == some .directory
  | .error _ => false

def exists? (d : Disk) (path : String) : Bool :=
  match d.goal path with
  | .ok (.directory _) => true
  | .ok (.entry l slash) =>
    match d.find? l with
    | some .directory => true
    | some (.file _) => !slash
    | none => false
  | .error _ => false

/-- What a file holds, if there is such a file. -/
def read (d : Disk) (path : String) : Option Content :=
  match d.goal path with
  | .ok (.entry l false) =>
    match d.find? l with
    | some (.file content) => some content
    | _ => none
  | _ => none

/-- The text of a file, if there is such a file and it holds text. -/
def readText (d : Disk) (path : String) : Option String :=
  match d.read path with
  | some (.text s) => some s
  | _ => none

def makeDirectory (d : Disk) (path : String) : Except DiskFault Disk :=
  match d.goal path with
  | .error e => .error e
  | .ok (.directory _) => .error .alreadyThere
  | .ok (.entry l _) =>
    match d.find? l, d.refusals.lookup l with
    | some _, _ => .error .alreadyThere
    | none, some refusal => .error refusal.cause
    | none, none => .ok (d.put l .directory)

/-- As `makeDirectory`, for a path that may be a directory already. -/
def keepDirectory (d : Disk) (path : String) : Disk × Except DiskFault Unit :=
  match d.makeDirectory path with
  | .ok d => (d, .ok ())
  | .error e => (d, if d.isDirectory path then .ok () else .error e)

/-- Makes the first of the paths a directory. The others lie around it, the nearest
first, and are made before it where they are needed. The empty path needs nothing. -/
def makeAll (d : Disk) : List String → Disk × Except DiskFault Unit
  | [] => (d, .error .notFound)
  | path :: around =>
    if path = "" then (d, .ok ())
    else
      match d.makeDirectory path with
      | .error .notFound =>
        match makeAll d around with
        | (d, .error e) => (d, .error e)
        | (d, .ok ()) => d.keepDirectory path
      | _ => d.keepDirectory path

def makeDirectories (d : Disk) (path : String) : Disk × Except DiskFault Unit :=
  d.makeAll (path :: Path.parents path)

/-- The disk after a refused write at a location. -/
def refuse (d : Disk) (l : Location) (refusal : Refusal) : Disk :=
  match refusal.left with
  | none => d
  | some content => d.put l (.file content)

def writeFile (d : Disk) (path : String) (content : Content) : Disk × Except DiskFault Unit :=
  match d.goal path with
  | .error e => (d, .error e)
  | .ok (.directory _) => (d, .error .isDirectory)
  | .ok (.entry l slash) =>
    match d.find? l with
    | some .directory => (d, .error .isDirectory)
    | _ =>
      if slash then (d, .error .isDirectory)
      else
        match d.refusals.lookup l with
        | none => (d.put l (.file content), .ok ())
        | some refusal => (d.refuse l refusal, .error refusal.cause)

/-- The disk with a file on it, for those who go on only if the whole file was written. -/
def write (d : Disk) (path : String) (content : Content) : Except DiskFault Disk :=
  match d.writeFile path content with
  | (_, .error e) => .error e
  | (d, .ok ()) => .ok d

/-- The files below `cwd`, each with its path from there. -/
def files (d : Disk) : List (String × Content) :=
  d.nodes.filterMap fun
    | (l, .file content) =>
      if d.cwd.isPrefixOf l then
        some (Path.ofNames false (l.drop d.cwd.length), content)
      else none
    | (_, .directory) => none

end Disk

end ProofStepper
