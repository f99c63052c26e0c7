import ProofStepper.CommandLine.Run

/-!
# The program

Takes what a run needs to know from the machine, runs, and puts what the run made onto
the machine. The variables cannot be listed, so those are asked for that a run reads by
name and those that the file of variables may mean.
-/

namespace ProofStepper.CommandLine

/-- The fault of reading a directory like a file. -/
def directoryFault : UInt32 := 21

def pathOf (l : Location) : String := Path.ofNames true l

def observe (disk : Disk) (l : Location) : IO Disk := do
  try
    let bytes ← IO.FS.readBinFile (pathOf l)
    pure (disk.put l (.file (.ofBytes bytes)))
  catch
    | .inappropriateType _ code _ =>
      pure (if code = directoryFault then disk.put l .directory else disk)
    | _ => pure disk

def wordsOf (s : List Char) (isWordChar : Char → Bool) : List String :=
  (s.splitBy fun a b => isWordChar a == isWordChar b).map String.ofList

def observeVariables (disk : Disk) : IO Variables := do
  let file := match disk.read VariableFile.localFile with
    | none => []
    | some content => VariableFile.legible content
  let names := ["HOME", "TMPDIR", configVariable]
    ++ wordsOf file Char.isAlphanum ++ wordsOf file VariableFile.isNameChar
  names.eraseDups.foldlM (fun vs name => do
    if name.any (fun c => c == '=' || c == '\x00') || name.isEmpty then pure vs
    else
      match ← IO.getEnv name with
      | none => pure vs
      | some value => pure (vs.define name value)) {}

/-- One round of looking at what a run touches. -/
def observeTouched (disk : Disk) (args : List String) : IO Disk := do
  let vs ← observeVariables disk
  let locations := (touchedPaths disk vs args).flatMap disk.passed
  (locations.filter fun l => (disk.find? l).isNone).eraseDups.foldlM observe disk

/-- Puts everything onto the machine that was not seen there before. -/
def keep (seen disk : Disk) : IO Unit := do
  for (l, node) in disk.nodes do
    unless seen.nodes.contains (l, node) do
      match node with
      | .directory => IO.FS.createDirAll (pathOf l)
      | .file (.text s) => IO.FS.writeFile (pathOf l) s
      | .file (.bytes bs) => IO.FS.writeBinFile (pathOf l) ⟨(bs.map UInt8.ofNat).toArray⟩

/-- Files name further files twice at most: the file of variables names the settings
file, and that the directory of images. -/
def runHere (args : List String) : IO UInt32 := do
  let cwd ← IO.currentDir
  let mut disk : Disk := { cwd := Path.names cwd.toString }
  for _ in [0:3] do
    disk ← observeTouched disk args
  let outcome := run disk (← observeVariables disk) args
  keep disk outcome.disk
  IO.print outcome.output
  match outcome.message with
  | some message => IO.eprintln s!"Error: {message}"
  | none => if outcome.exit ≠ 0 then IO.eprint helpText
  pure outcome.exit.toUInt32

end ProofStepper.CommandLine

def main (args : List String) : IO UInt32 := ProofStepper.CommandLine.runHere args
