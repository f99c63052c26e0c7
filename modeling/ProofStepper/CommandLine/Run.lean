import ProofStepper.CommandLine.Arguments
import ProofStepper.Debugger.Basic
import ProofStepper.Log.File
import ProofStepper.Rpc.Port
import ProofStepper.Settings.File

/-!
# Running commands

A command reads a proof log as if a verification of the log file itself had just ended,
and shows the trace or the heaps of its states. A run is a function of the disk, the
variables and the arguments.
-/

namespace ProofStepper.CommandLine

inductive Fault where
  | settings (fault : Settings.FileFault)
  | log (fault : ProofLog.FileFault)
  | stateOutOfRange (state shown : Nat)
  | heapNotComputed (state : Nat)
  | cannotServe (port : Nat)
deriving DecidableEq, Repr

def Fault.message : Fault → String
  | settings fault => fault.message
  | log fault => fault.message
  | stateOutOfRange state shown =>
    s!"State {state} out of range, the proof log has {shown} client-visible states"
  | heapNotComputed state => s!"Failed to compute the heap of state {state}"
  | cannotServe port => s!"Cannot listen on port {port}"

def variableOr (vs : Variables) (name default : String) : String := (vs.value? name).getD default

/-- The settings without a file: heap images go below the directory for passing files. -/
def baseSettings (vs : Variables) : Settings :=
  { heapImageDir := Path.join (variableOr vs "TMPDIR" "/tmp") "vdb-heap" }

/-- The file that is read where none is named. -/
def homeFile? (vs : Variables) : Option String :=
  match vs.value? "HOME" with
  | none => none
  | some home => if home = "" then none else some (Path.join home Settings.homeFile)

def loadSettings (disk : Disk) (vs : Variables) (config : Option String) :
    Except Fault Settings :=
  let base := baseSettings vs
  let loaded :=
    match config, homeFile? vs with
    | some path, _ => Settings.load disk base path
    | none, some path => Settings.loadHome disk base path
    | none, none => .ok base
  loaded.mapError .settings

/-- A debugger in which the log file is open as a document whose verification has ended
with the log; and the uri of that document. -/
def openLog (disk : Disk) (settings : Settings) (path : String) :
    Except Fault (Debugger × String) :=
  match ProofLog.readFile disk path with
  | .error e => .error (.log e)
  | .ok log =>
    let uri := ProofLog.uriScheme ++ Path.absolute disk.cwd path
    let opened := (Debugger.openFile { settings, disk } uri).state
    .ok ((opened.complete uri log).state, uri)

def shownCount (d : Debugger) (uri : String) : Nat :=
  match (d.task? uri).bind fun task => task.run? with
  | none => 0
  | some run => run.shown.length

def checkState (d : Debugger) (uri : String) (state : Nat) : Except Fault Unit :=
  if state < shownCount d uri then .ok ()
  else .error (.stateOutOfRange state (shownCount d uri))

def traceText (d : Debugger) (uri : String) (state : Nat) : Except Fault String := do
  checkState d uri state
  let trace := (d.trace uri state).answer
  pure ((Trace.toJson trace).canonical.spread ++ "\n")

/-- Shows the heaps of some states, one after another. What was written before a fault
stays written. -/
def showHeaps (d : Debugger) (uri : String) (image : Bool) :
    List Nat → Debugger × Except Fault Unit
  | [] => (d, .ok ())
  | state :: later =>
    match checkState d uri state with
    | .error e => (d, .error e)
    | .ok () =>
      let reply := d.showHeap Heap.capture uri state image
      if reply.answer then showHeaps reply.state uri image later
      else (reply.state, .error (.heapNotComputed state))

def heapText (d : Debugger) (uri : String) (states : List Nat) (image : Bool) :
    Disk × Except Fault String :=
  match showHeaps d uri image states with
  | (d, .error e) => (d.disk, .error e)
  | (d, .ok ()) => (d.disk, .ok (d.heapPage uri ++ "\n"))

/-- The settings for the trace of a command: its flag alone decides how much is shown,
and it may only darken. -/
def traceSettings (s : Settings) (advanced dark : Bool) : Settings :=
  { s with simpleMode := !advanced, darkGraphs := s.darkGraphs || dark }

def perform (disk : Disk) (settings : Settings) : Command → Disk × Except Fault String
  | .serve port => (disk, .error (.cannotServe (port.getD settings.rpcPort)))
  | .trace log state advanced dark =>
    match openLog disk (traceSettings settings advanced dark) log with
    | .error e => (disk, .error e)
    | .ok (d, uri) => (disk, traceText d uri state)
  | .heap log state previous image =>
    match openLog disk settings log with
    | .error e => (disk, .error e)
    | .ok (d, uri) => heapText d uri (previous.toList ++ [state]) image

structure Outcome where
  exit : Nat
  output : String := ""
  /-- What went wrong, if a command failed. -/
  message : Option String := none
  disk : Disk
deriving DecidableEq, Repr

def versionText : String := s!"{Release.name} {Release.version}\n"

def helpText : String :=
  s!"Usage: {Release.name} [--config FILE] COMMAND\n\n"
    ++ "Commands:\n"
    ++ "  serve [--port N] [--log-file]\n"
    ++ "  trace --log FILE --state N [--advanced] [--dark]\n"
    ++ "  heap --log FILE --state N [--previous N] [--with-heap]\n"

def Outcome.ofStop (disk : Disk) : Stop → Outcome
  | .refused => { exit := 2, disk }
  | .version => { exit := 0, output := versionText, disk }
  | .help => { exit := 0, output := helpText, disk }

def Outcome.ofResult (disk : Disk) : Except Fault String → Outcome
  | .ok output => { exit := 0, output, disk }
  | .error e => { exit := 1, message := some e.message, disk }

def run (disk : Disk) (vs : Variables) (args : List String) : Outcome :=
  let vs := VariableFile.load disk vs VariableFile.localFile
  match Request.ofArguments vs args with
  | .error stop => .ofStop disk stop
  | .ok request =>
    match loadSettings disk vs request.config with
    | .error e => .ofResult disk (.error e)
    | .ok settings =>
      let (disk, result) := perform disk settings request.command
      .ofResult disk result

/-- The paths that a run reads and writes, as far as the disk tells: what the files on
it say may lead to further ones. -/
def touchedPaths (disk : Disk) (vs : Variables) (args : List String) : List String :=
  let vs := VariableFile.load disk vs VariableFile.localFile
  let forRequest :=
    match Request.ofArguments vs args with
    | .error _ => []
    | .ok request =>
      let images :=
        match loadSettings disk vs request.config with
        | .error _ => []
        | .ok settings =>
          (List.range Heap.slotCount).map fun slot => Heap.imagePath settings.heapImageDir slot
      let settingsFile := (request.config <|> homeFile? vs).toList
      let log :=
        match request.command with
        | .serve _ => []
        | .trace log _ _ _ => [log]
        | .heap log _ _ _ => [log]
      settingsFile ++ log ++ images
  VariableFile.localFile :: forRequest

end ProofStepper.CommandLine
