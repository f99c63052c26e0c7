import ProofStepper.Disk.Basic
import ProofStepper.Settings.Basic
import ProofStepper.Toml.Printer
import ProofStepper.Toml.Reader

/-!
# Settings files

Settings are kept in a TOML file with one key for each of them. Keys that are missing
stand for what the settings are without a file, and keys that are unknown are passed
over, but their values have to be readable.
-/

namespace ProofStepper.Settings

inductive FileFault where
  | unreadable (path : String)
  | malformed
  | unprintable
  | unwritable (path : String)
deriving DecidableEq, Repr

def FileFault.message : FileFault → String
  | unreadable path => "Failed to read config file: " ++ Text.quotePath path
  | malformed => "Failed to parse config file as TOML"
  | unprintable => "Failed to serialize config to TOML"
  | unwritable path => "Failed to write config file: " ++ Text.quotePath path

def boolean? : Toml.Value → Option Bool
  | .boolean b => some b
  | _ => none

def string? : Toml.Value → Option String
  | .string s => some s
  | _ => none

def natural? (limit : Nat) : Toml.Value → Option Nat
  | .integer n => if 0 ≤ n ∧ n < limit then some n.toNat else none
  | _ => none

def entry? {α : Type} (entries : Toml.Entries) (key : String) (read : Toml.Value → Option α)
    (default : α) : Option α :=
  match entries.lookup key with
  | none => some default
  | some v => read v

def ofToml? (base : Settings) (entries : Toml.Entries) : Option Settings := do
  let simpleMode ← entry? entries "simple_mode" boolean? base.simpleMode
  let darkGraphs ← entry? entries "dark_graphs" boolean? base.darkGraphs
  let heapImageDir ← entry? entries "heap_image_dir" string? base.heapImageDir
  let stopTimeoutMs ← entry? entries "stop_timeout_ms" (natural? (Nat.pow 2 64)) base.stopTimeoutMs
  let rpcPort ← entry? entries "rpc_port" (natural? (Nat.pow 2 16)) base.rpcPort
  if Toml.entriesReadable entries then
    some { simpleMode, darkGraphs, heapImageDir, stopTimeoutMs, rpcPort }
  else none

/-- The settings in a text. -/
def ofText? (base : Settings) (text : String) : Option Settings :=
  (Toml.ofText? text).bind (ofToml? base)

/-- The largest whole number that is written. -/
def writtenLimit : Nat := Nat.pow 2 63

def text? (s : Settings) : Option String :=
  if writtenLimit ≤ s.stopTimeoutMs then none
  else
    some (s!"simple_mode = {s.simpleMode}\n"
      ++ s!"dark_graphs = {s.darkGraphs}\n"
      ++ s!"heap_image_dir = {Toml.stringText s.heapImageDir}\n"
      ++ s!"stop_timeout_ms = {s.stopTimeoutMs}\n"
      ++ s!"rpc_port = {s.rpcPort}\n")

/-- The file that is read where no other is named. -/
def homeFile : String := ".vdb.toml"

def load (disk : Disk) (base : Settings) (path : String) : Except FileFault Settings :=
  match disk.readText path with
  | none => .error (.unreadable path)
  | some text =>
    match ofText? base text with
    | none => .error .malformed
    | some s => .ok s

/-- As `load`, from a file that need not be there. -/
def loadHome (disk : Disk) (base : Settings) (path : String) : Except FileFault Settings :=
  if disk.exists? path then load disk base path else .ok base

def save (disk : Disk) (s : Settings) (path : String) : Except FileFault Disk :=
  match s.text? with
  | none => .error .unprintable
  | some text =>
    match disk.write path (.text text) with
    | .error _ => .error (.unwritable path)
    | .ok disk => .ok disk

end ProofStepper.Settings
