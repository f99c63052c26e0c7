import ProofStepper.Rpc.Params
import ProofStepper.Scheduler.Timeline

/-!
# Serving calls

A call is a request that can be served: its version is the right one, its method is
known, and its parameters are what the method takes. Every call but `Verify` and
`StopVerification` is a request to the debugger and answered at once; those two go to the
scheduler. Of all calls only `Verify` can be refused. The released build is meant where no
other is named.
-/

namespace ProofStepper.Rpc

open Scheduler (Timeline)

inductive Call where
  | trace (p : TraceParams)
  | showHeap (p : HeapParams)
  | renderHeap (uri : String)
  | resetState
  | openFile (uri : String)
  | closeFile (uri : String)
  | diagnostics (uri : String)
  | removeDiagnostics (uri : String)
  | stopDebugging
  | verify (p : VerifyParams)
  | stopVerification (uri : String)
deriving DecidableEq, Repr, Inhabited

namespace Call

/-- What a method makes of its parameters. A method without parameters does not look at
them. -/
abbrev Reader := Option Json → Except Error Call

def withUri (call : String → Call) : Reader := fun params => (readParams readUri params).map call

def plain (call : Call) : Reader := fun _ => .ok call

def methods : List (String × Reader) :=
  [("GetExecutionTrace", fun params => (readParams TraceParams.ofJson params).map .trace),
    ("ShowHeap", fun params => (readParams HeapParams.ofJson params).map .showHeap),
    ("RenderHeap", withUri .renderHeap),
    ("ResetState", plain .resetState),
    ("FileOpened", withUri .openFile),
    ("FileClosed", withUri .closeFile),
    ("GetDiagnostics", withUri .diagnostics),
    ("RemoveDiagnostics", withUri .removeDiagnostics),
    ("StopDebugging", plain .stopDebugging),
    ("Verify", fun params => (readParams VerifyParams.ofJson params).map .verify),
    ("StopVerification", withUri .stopVerification)]

/-- The call that a request stands for. The version is looked at first, then the method,
then the parameters. -/
def ofRequest (r : Request) : Except Error Call :=
  if r.jsonrpc ≠ version then .error .wrongVersion
  else
    match methods.lookup r.method with
    | none => .error (.methodNotFound r.method)
    | some read => read r.params

end Call

/-- The answer of the debugger as a result. There is one for every answer: it is made of
texts, words and truth values, in lists and in records whose members have fixed names. So the
internal error that waits for a trace or for diagnostics without a JSON form never arises. -/
def resultOf : Answer → Json
  | .done => .null
  | .flag b => .bool b
  | .failed e => .str e.message
  | .trace t => Trace.toJson t
  | .view v => v.toJson
  | .revision n => Json.ofOption .nat n
  | .page html => .str html
  | .diagnostics ds => .arr (ds.map Diagnostic.toJson)

/-- The answer of the scheduler as a result or an error. -/
def verdictResult : Scheduler.Verdict → Except Error Json
  | .started => .ok (.bool true)
  | .refused e => .error (.ofFailure e)
  | .told b => .ok (.bool b)

def debug (capture : Heap.Capture) (t : Timeline) (op : Operation) :
    Reply Timeline (Except Error Json) :=
  let r := t.operate capture op
  ⟨.ok (resultOf r.answer), r.state, r.notices⟩

def schedule (capture : Heap.Capture) (t : Timeline) (request : Scheduler.Request) :
    Reply Timeline (Except Error Json) :=
  let r := t.serve capture request
  ⟨verdictResult r.answer, r.state, r.notices⟩

/-- The page of a document and, after that, its revision. -/
def pageAndRevision (capture : Heap.Capture) (t : Timeline) (uri : String) :
    Reply Timeline (Except Error Json) :=
  let content := t.operate capture (.heapPage uri)
  let revision := content.state.operate capture (.heapRevision uri)
  ⟨.ok (.obj [("content", resultOf content.answer), ("revision", resultOf revision.answer)]),
    revision.state, content.notices ++ revision.notices⟩

def Call.serve (capture : Heap.Capture) (t : Timeline) : Call → Reply Timeline (Except Error Json)
  | .trace p => debug capture t (.trace p.uri p.clientState)
  | .showHeap p => debug capture t (.showHeap p.uri p.clientIndex p.needsImage)
  | .renderHeap uri => pageAndRevision capture t uri
  | .resetState => debug capture t .resetState
  | .openFile uri => debug capture t (.openFile uri)
  | .closeFile uri => debug capture t (.closeFile uri)
  | .diagnostics uri => debug capture t (.diagnostics uri)
  | .removeDiagnostics uri => debug capture t (.resetDiagnostics uri)
  | .stopDebugging => debug capture t .stopDebugging
  | .verify p => schedule capture t (.verify p.uri p.manual)
  | .stopVerification uri => schedule capture t (.stop uri)

/-- Serves a request; the response carries its id. -/
def serve (capture : Heap.Capture) (t : Timeline) (r : Request) : Reply Timeline Response :=
  match Call.ofRequest r with
  | .error e => ⟨.failure r.id e, t, []⟩
  | .ok call =>
    let reply := call.serve capture t
    match reply.answer with
    | .ok result => ⟨.success r.id result, reply.state, reply.notices⟩
    | .error e => ⟨.failure r.id e, reply.state, reply.notices⟩

/-- Whether a build gets through a call. Positions are displayed on the page of a document
and nowhere else. -/
def Call.isServed (b : Build) (t : Timeline) : Call → Bool
  | .renderHeap uri => Heap.Page.isDisplayed b (t.state.debugger.heapView uri)
  | _ => true

/-- Serves a request in a build that may stop without an answer. -/
def serve? (b : Build) (capture : Heap.Capture) (t : Timeline) (r : Request) :
    Option (Reply Timeline Response) :=
  match Call.ofRequest r with
  | .error _ => some (serve capture t r)
  | .ok call => if call.isServed b t then some (serve capture t r) else none

end ProofStepper.Rpc
