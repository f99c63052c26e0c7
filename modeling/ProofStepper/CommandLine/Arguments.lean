import ProofStepper.CommandLine.VariableFile
import ProofStepper.Number.Digits

/-!
# Arguments

What the program is asked to do. Arguments are taken from left to right: options and
flags for all commands, the name of a command, then options and flags of that command.
The first fault, or the first request for the version or for help, decides.

The value of an option stands behind its name, after an equals sign or as the next
argument, unless that looks like an option. A value of its own argument is checked when
the next option is met or the arguments end, one after an equals sign at once.
-/

namespace ProofStepper.CommandLine

inductive Command where
  | serve (port : Option Nat)
  | trace (log : String) (state : Nat) (advanced dark : Bool)
  | heap (log : String) (state : Nat) (previous : Option Nat) (image : Bool)
deriving DecidableEq, Repr

structure Request where
  /-- The settings file, if one is named. -/
  config : Option String
  command : Command
deriving DecidableEq, Repr

/-- Why arguments ask for no command. -/
inductive Stop where
  | refused
  | version
  | help
deriving DecidableEq, Repr

inductive Argument where
  | word (text : String)
  | long (name : String) (value : Option String)
  | short (letters : List Char)
  | terminator
deriving DecidableEq, Repr

/-- A lone dash is a word. -/
def Argument.ofChars : List Char → Argument
  | ['-', '-'] => terminator
  | '-' :: '-' :: rest =>
    let name := String.ofList (rest.takeWhile (· ≠ '='))
    match rest.dropWhile (· ≠ '=') with
    | [] => long name none
    | _ :: value => long name (some (String.ofList value))
  | '-' :: c :: rest => short (c :: rest)
  | s => word (String.ofList s)

def unsigned? : List Char → Option Nat
  | '+' :: rest => wholeNumber? 10 rest
  | s => wholeNumber? 10 s

/-- The number of a state, below `2 ^ 64`. -/
def stateNumber? (s : List Char) : Option Nat := (unsigned? s).filter (· < Nat.pow 2 64)

/-- A port, below `2 ^ 16`; zero may have a minus sign. -/
def portNumber? : List Char → Option Nat
  | '-' :: rest => (wholeNumber? 10 rest).filter (· = 0)
  | s => (unsigned? s).filter (· < Nat.pow 2 16)

inductive ValueKind where
  | path
  | state
  | port
deriving DecidableEq, Repr

inductive Value where
  | path (p : String)
  | number (n : Nat)
deriving DecidableEq, Repr

def ValueKind.read? : ValueKind → String → Option Value
  | path, s => if s = "" then none else some (.path s)
  | state, s => (stateNumber? s.toList).map .number
  | port, s => (portNumber? s.toList).map .number

/-- The flags and options that may be given at one place. -/
structure Form where
  flags : List String
  options : List (String × ValueKind)
  hasVersion : Bool := false
deriving DecidableEq, Repr

def configOption : String := "config"

def Form.forAll : Form := ⟨[], [(configOption, .path)], true⟩

def Form.ofCommand? (name : String) : Option Form :=
  let form (flags : List String) (options : List (String × ValueKind)) : Option Form :=
    some ⟨flags, (configOption, .path) :: options, false⟩
  if name = "serve" then form ["log-file"] [("port", .port)]
  else if name = "trace" then form ["advanced", "dark"] [("log", .path), ("state", .state)]
  else if name = "heap" then
    form ["with-heap"] [("log", .path), ("state", .state), ("previous", .state)]
  else none

/-- What has been given for a form so far. Nothing may be given twice. -/
structure Given where
  form : Form
  flags : List String := []
  values : List (String × Value) := []
  /-- The option met last, with its value if that is there, which is not checked yet. -/
  pending : Option (String × Option String) := none
deriving DecidableEq, Repr

namespace Given

def path? (g : Given) (name : String) : Option String :=
  match g.values.lookup name with
  | some (.path p) => some p
  | _ => none

def number? (g : Given) (name : String) : Option Nat :=
  match g.values.lookup name with
  | some (.number n) => some n
  | _ => none

def addValue (g : Given) (name text : String) : Except Stop Given :=
  match (g.form.options.lookup name).bind (·.read? text) with
  | none => .error .refused
  | some v =>
    if (g.values.lookup name).isSome then .error .refused
    else .ok { g with values := g.values ++ [(name, v)] }

def addFlag (g : Given) (name : String) : Except Stop Given :=
  if g.flags.contains name then .error .refused else .ok { g with flags := g.flags ++ [name] }

/-- Checks what is pending. -/
def settle (g : Given) : Except Stop Given :=
  match g.pending with
  | none => .ok g
  | some (_, none) => .error .refused
  | some (name, some text) => { g with pending := none }.addValue name text

/-- Stops for the version or for help, once nothing is pending. -/
def stop (g : Given) (why : Stop) : Except Stop Given := g.settle.bind fun _ => .error why

def isOption (g : Given) (name : String) : Bool := (g.form.options.lookup name).isSome

def takeLong (g : Given) (name : String) : Option String → Except Stop Given
  | none =>
    if name = "help" then g.stop .help
    else if name = "version" ∧ g.form.hasVersion then g.stop .version
    else if g.form.flags.contains name then g.settle.bind (·.addFlag name)
    else if g.isOption name then
      g.settle.map fun g => { g with pending := some (name, none) }
    else .error .refused
  | some text =>
    if g.isOption name then g.settle.bind (·.addValue name text) else .error .refused

/-- Only the first letter is looked at: each one that is known stops. -/
def takeShort (g : Given) : List Char → Except Stop Given
  | 'h' :: _ => g.stop .help
  | 'V' :: _ => if g.form.hasVersion then g.stop .version else .error .refused
  | _ => .error .refused

def isWaiting (g : Given) : Bool :=
  match g.pending with
  | some (_, none) => true
  | _ => false

/-- A word is taken by an option that waits for its value. -/
def takeWord (g : Given) (text : String) : Except Stop Given :=
  match g.pending with
  | some (name, none) => .ok { g with pending := some (name, some text) }
  | _ => .error .refused

/-- Takes all arguments behind the name of a command. Nothing may follow two dashes. -/
def takeAll (g : Given) : List String → Except Stop Given
  | [] => g.settle
  | a :: rest =>
    match Argument.ofChars a.toList with
    | .word text => (g.takeWord text).bind fun g => takeAll g rest
    | .long name value => (g.takeLong name value).bind fun g => takeAll g rest
    | .short letters => (g.takeShort letters).bind fun g => takeAll g rest
    | .terminator => if rest = [] then g.settle else .error .refused

end Given

/-- Help may be asked for like a command, on one command or on none. -/
def helpStop (topics : List String) : Stop :=
  let known (topic : String) : Bool := topic == "help" || (Form.ofCommand? topic).isSome
  if topics.length ≤ 1 ∧ topics.all known then .help else .refused

/-- Takes arguments up to the name of a command; what is pending there stays so. -/
def takeFront (g : Given) : List String → Except Stop (Given × String × Form × List String)
  | [] => .error .refused
  | a :: rest =>
    match Argument.ofChars a.toList with
    | .word text =>
      if g.isWaiting then (g.takeWord text).bind fun g => takeFront g rest
      else if text = "help" then .error (helpStop rest)
      else
        match Form.ofCommand? text with
        | some form => .ok (g, text, form, rest)
        | none => .error .refused
    | .long name value => (g.takeLong name value).bind fun g => takeFront g rest
    | .short letters => (g.takeShort letters).bind fun g => takeFront g rest
    | .terminator => .error .refused

/-- The command of a name with what was given for it, if nothing is missing. -/
def Command.ofGiven? (name : String) (g : Given) : Option Command :=
  if name = "serve" then some (.serve (g.number? "port"))
  else do
    let log ← g.path? "log"
    let state ← g.number? "state"
    if name = "trace" then
      some (.trace log state (g.flags.contains "advanced") (g.flags.contains "dark"))
    else if name = "heap" then
      some (.heap log state (g.number? "previous") (g.flags.contains "with-heap"))
    else none

/-- The variable that names the settings file where no option does. -/
def configVariable : String := "VDB_CONFIG"

/-- The settings file, of what is given before the command and behind its name. What is
said last counts, and arguments count before the variable. The variable must not be
empty, unless both places make it idle. -/
def configFile (vs : Variables) (front behind : Option String) : Except Stop (Option String) :=
  if vs.value? configVariable = some "" ∧ (front = none ∨ behind = none) then .error .refused
  else .ok (behind <|> front <|> vs.value? configVariable)

def Request.ofArguments (vs : Variables) (args : List String) : Except Stop Request := do
  let (front, name, form, rest) ← takeFront { form := Form.forAll } args
  let behind ← Given.takeAll { form := form } rest
  let front ← front.settle
  let config ← configFile vs (front.path? configOption) (behind.path? configOption)
  match Command.ofGiven? name behind with
  | some command => pure { config, command }
  | none => .error .refused

end ProofStepper.CommandLine
