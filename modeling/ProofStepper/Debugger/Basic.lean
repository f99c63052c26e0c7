import ProofStepper.Heap.Capture
import ProofStepper.Heap.ImageFile
import ProofStepper.Heap.Session
import ProofStepper.Settings.Basic
import ProofStepper.Task

/-!
# The debugger

All open documents, each with its task and its heap session, the settings and the disk
on which heap images are kept. A document keeps its place in `documents` for good, also
after it was closed, because a request may still hold it; `registry` says which place
belongs to which open uri. A closed document is out of reach of every later request.
-/

namespace ProofStepper

structure Document where
  task : Task
  session : Heap.Session := {}
deriving DecidableEq, Repr, Inhabited

structure Debugger where
  registry : List (String × Nat) := []
  documents : List Document := []
  settings : Settings := {}
  disk : Disk := {}
deriving DecidableEq, Repr, Inhabited

namespace Debugger

def place? (d : Debugger) (uri : String) : Option Nat := d.registry.lookup uri

def place (d : Debugger) (uri : String) : Except Failure Nat :=
  match d.place? uri with
  | none => .error (.unknownDocument uri)
  | some p => .ok p

def document? (d : Debugger) (uri : String) : Option Document :=
  (d.place? uri).bind fun p => d.documents[p]?

def document (d : Debugger) (uri : String) : Except Failure Document :=
  match d.document? uri with
  | none => .error (.unknownDocument uri)
  | some doc => .ok doc

def task? (d : Debugger) (uri : String) : Option Task := (d.document? uri).map (·.task)

/-- Changes the document at a place. -/
def update (d : Debugger) (place : Nat) (change : Document → Document) : Debugger :=
  { d with documents := d.documents.modify place change }

/-- Changes an open document. -/
def updateUri (d : Debugger) (uri : String) (change : Document → Document) : Debugger :=
  match d.place? uri with
  | none => d
  | some p => d.update p change

/-- Changes every open document. -/
def updateAll (d : Debugger) (change : Document → Document) : Debugger :=
  d.registry.foldl (fun d (_, p) => d.update p change) d

/-- The uris of the open documents. -/
def uris (d : Debugger) : List String := d.registry.map (·.1)

/-- Opens a document; tells whether it was not open before. -/
def openFile (d : Debugger) (uri : String) : Reply Debugger Bool :=
  match d.place? uri with
  | some _ => ⟨false, d, []⟩
  | none =>
    ⟨true,
      { d with
        registry := d.registry ++ [(uri, d.documents.length)]
        documents := d.documents ++ [{ task := { uri } }] }, []⟩

/-- Closes a document; tells whether it was open. -/
def closeFile (d : Debugger) (uri : String) : Reply Debugger Bool :=
  match d.place? uri with
  | none => ⟨false, d, []⟩
  | some p =>
    let d := d.update p fun doc => { doc with task := doc.task.resetDiagnostics }
    ⟨true, { d with registry := d.registry.filter fun e => e.1 ≠ uri }, []⟩

/-- A verification of a document begins: what the last one left is dropped. -/
def start (d : Debugger) (uri : String) : Reply Debugger (Except Failure Unit) :=
  match d.place uri with
  | .error e => ⟨.error e, d, []⟩
  | .ok p =>
    ⟨.ok (), d.update p fun doc => ⟨doc.task.invalidate, doc.session.reset⟩, []⟩

/-- What is shown below the panels once a log is there. -/
def logSummary (log : ProofLog) : String := (Run.ofRecords log.steps).summary

/-- A verification of a document has ended with a log. The log is dropped if the
document is not open. -/
def complete (d : Debugger) (uri : String) (log : ProofLog) : Reply Debugger Bool :=
  match d.place uri with
  | .error e => ⟨false, d, [.warn (e.message ++ ", discarding verification results")]⟩
  | .ok p =>
    ⟨true,
      d.update p fun doc =>
        ⟨doc.task.complete log, doc.session.reset.setInfo (logSummary log)⟩,
      Run.notices log.steps⟩

def requestDetails (uri : String) (number : Nat) : List (String × String) :=
  [("uri", uri), ("client_index", toString number)]

/-- The trace of a client state; empty if there is none, for which a notice tells the
cause. -/
def trace (d : Debugger) (uri : String) (number : Nat) : Reply Debugger Trace :=
  let refused (e : Failure) : Reply Debugger Trace :=
    ⟨[], d, [.error ("Error handling execution trace request: " ++ e.message)
      (requestDetails uri number)]⟩
  match d.document uri with
  | .error e => refused e
  | .ok doc =>
    let reply := doc.task.trace number d.settings.traceStyle
    match reply.answer with
    | .error e => refused e
    | .ok trace =>
      ⟨trace, d.updateUri uri fun doc => { doc with task := reply.state }, reply.notices⟩

/-- The first half of a heap request: the document, the snapshot that was taken and the
directory for its image. -/
structure HeapTicket where
  place : Nat
  snapshot : Snapshot
  imageDir : String
deriving DecidableEq, Repr, Inhabited

/-- Takes the snapshot of a client state. Nothing changes yet. -/
def takeHeap (d : Debugger) (capture : Heap.Capture) (uri : String) (number : Nat)
    (image : Bool) : Except Failure HeapTicket :=
  match d.place uri with
  | .error e => .error e
  | .ok p =>
    match d.documents[p]?.bind fun doc => doc.task.run? with
    | none => .error (.noCompletedRun uri)
    | some run =>
      match run.step number with
      | .error e => .error e
      | .ok step =>
        match capture step image with
        | .error e => .error e
        | .ok snapshot => .ok ⟨p, snapshot, d.settings.heapImageDir⟩

def pushSnapshot (d : Debugger) (ticket : HeapTicket) (session : Heap.Session) :
    Debugger × Except Failure Unit :=
  match session.push ticket.snapshot with
  | .error e => (d, .error e)
  | .ok session => (d.update ticket.place fun doc => { doc with session }, .ok ())

/-- The second half of a heap request: writes the image and stores the snapshot. -/
def storeHeap (d : Debugger) (ticket : HeapTicket) : Debugger × Except Failure Unit :=
  match d.documents[ticket.place]? with
  | none => (d, .ok ())
  | some doc =>
    match ticket.snapshot.image with
    | none => d.pushSnapshot ticket doc.session
    | some image =>
      match Heap.writeImage d.disk ticket.imageDir doc.session.next image with
      | (disk, .error e) => ({ d with disk }, .error e)
      | (disk, .ok ()) => { d with disk }.pushSnapshot ticket doc.session

/-- Shows the heap of a client state; tells whether that went well, and a notice tells
the cause if not. -/
def showHeap (d : Debugger) (capture : Heap.Capture) (uri : String) (number : Nat)
    (image : Bool) : Reply Debugger Bool :=
  let refused (d : Debugger) (e : Failure) : Reply Debugger Bool :=
    ⟨false, d, [.error ("Error showing heap: " ++ e.message) (requestDetails uri number)]⟩
  match d.takeHeap capture uri number image with
  | .error e => refused d e
  | .ok ticket =>
    match d.storeHeap ticket with
    | (d, .error e) => refused d e
    | (d, .ok ()) => ⟨true, d, []⟩

def heapView (d : Debugger) (uri : String) : Heap.View :=
  match d.document? uri with
  | none => .empty
  | some doc => doc.session.view

def heapRevision? (d : Debugger) (uri : String) : Option Nat :=
  (d.document? uri).map (·.session.revision)

/-- The heap page of a document, an empty one if the document is not open. -/
def heapPage (d : Debugger) (uri : String) : String :=
  let dir := d.settings.heapImageDir
  match d.document? uri with
  | none => Heap.Page.render dir .empty "" uri
  | some doc => doc.session.page dir uri

def heapPageNotices (d : Debugger) (uri : String) : List Notice :=
  match d.document uri with
  | .error e => [.warn (e.message ++ ", rendering placeholder")]
  | .ok _ => []

def diagnostics (d : Debugger) (uri : String) : List Diagnostic :=
  match d.task? uri with
  | none => []
  | some task => task.diagnostics

/-- Drops the diagnostics of a document; tells whether it is open. -/
def resetDiagnostics (d : Debugger) (uri : String) : Reply Debugger Bool :=
  ⟨(d.place? uri).isSome,
    d.updateUri uri fun doc => { doc with task := doc.task.resetDiagnostics }, []⟩

/-- Drops the snapshots of all open documents. -/
def resetState (d : Debugger) : Debugger :=
  d.updateAll fun doc => { doc with session := doc.session.dropSnapshots }

/-- Drops all that was shown, of every open document; the runs stay. -/
def stopDebugging (d : Debugger) : Debugger :=
  d.updateAll fun doc => ⟨doc.task.clearShown, doc.session.reset⟩

def setSettings (d : Debugger) (settings : Settings) : Debugger := { d with settings }

end Debugger

end ProofStepper
