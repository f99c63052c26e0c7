import ProofStepper.Disk.Basic
import ProofStepper.Log.Codec

/-!
# Proof log files

The proof log of a source file lies beside it, under the name of the file with
`.proof.json` behind it. Sources are named by `file` uris.
-/

namespace ProofStepper.ProofLog

def uriScheme : String := "file://"

def fileExtension : String := ".proof.json"

inductive FileFault where
  | notFileUri (uri : String)
  | emptyUri
  | unreadable (path : String)
  | malformed (path : String)
deriving DecidableEq, Repr

def FileFault.message : FileFault → String
  | notFileUri uri => s!"Not a file uri: {uri}"
  | emptyUri => "Empty file uri"
  | unreadable path => "Failed to read proof log: " ++ Text.quotePath path
  | malformed path => "Failed to parse proof log: " ++ Text.quotePath path

/-- What is left of a text after its beginning. -/
def afterStart? : (start : List Char) → List Char → Option (List Char)
  | [], rest => some rest
  | _ :: _, [] => none
  | c :: cs, d :: rest => if c = d then afterStart? cs rest else none

/-- Where the proof log of a document lies. -/
def pathOfUri (uri : String) : Except FileFault String :=
  match afterStart? uriScheme.toList uri.toList with
  | none => .error (.notFileUri uri)
  | some [] => .error .emptyUri
  | some path => .ok (String.ofList path ++ fileExtension)

def readFile (disk : Disk) (path : String) : Except FileFault ProofLog :=
  match disk.readText path with
  | none => .error (.unreadable path)
  | some text =>
    match ofText text with
    | .error _ => .error (.malformed path)
    | .ok log => .ok log

/-- The proof log that lies beside a document. -/
def recorded (disk : Disk) (uri : String) : Except FileFault ProofLog :=
  match pathOfUri uri with
  | .error e => .error e
  | .ok path => readFile disk path

end ProofStepper.ProofLog
