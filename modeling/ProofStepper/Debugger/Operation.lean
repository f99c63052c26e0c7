import ProofStepper.Debugger.Basic

/-!
# Operations of the debugger

The requests that the debugger serves, as data, and what it answers. A history of the
debugger is a list of operations.
-/

namespace ProofStepper

inductive Operation where
  | openFile (uri : String)
  | closeFile (uri : String)
  | start (uri : String)
  | complete (uri : String) (log : ProofLog)
  | trace (uri : String) (number : Nat)
  | showHeap (uri : String) (number : Nat) (image : Bool)
  | heapView (uri : String)
  | heapRevision (uri : String)
  | heapPage (uri : String)
  | diagnostics (uri : String)
  | resetDiagnostics (uri : String)
  | resetState
  | stopDebugging
  | setSettings (settings : Settings)
deriving DecidableEq, Repr, Inhabited

inductive Answer where
  | done
  | flag (b : Bool)
  | failed (f : Failure)
  | trace (t : Trace)
  | view (v : Heap.View)
  | revision (n : Option Nat)
  | page (html : String)
  | diagnostics (ds : List Diagnostic)
deriving DecidableEq, Repr, Inhabited

namespace Debugger

def perform (capture : Heap.Capture) (d : Debugger) : Operation → Reply Debugger Answer
  | .openFile uri => let r := d.openFile uri; ⟨.flag r.answer, r.state, r.notices⟩
  | .closeFile uri => let r := d.closeFile uri; ⟨.flag r.answer, r.state, r.notices⟩
  | .start uri =>
    let r := d.start uri
    match r.answer with
    | .ok () => ⟨.flag true, r.state, r.notices⟩
    | .error e => ⟨.failed e, r.state, r.notices⟩
  | .complete uri log => let r := d.complete uri log; ⟨.flag r.answer, r.state, r.notices⟩
  | .trace uri number => let r := d.trace uri number; ⟨.trace r.answer, r.state, r.notices⟩
  | .showHeap uri number image =>
    let r := d.showHeap capture uri number image
    ⟨.flag r.answer, r.state, r.notices⟩
  | .heapView uri => ⟨.view (d.heapView uri), d, []⟩
  | .heapRevision uri => ⟨.revision (d.heapRevision? uri), d, []⟩
  | .heapPage uri => ⟨.page (d.heapPage uri), d, d.heapPageNotices uri⟩
  | .diagnostics uri => ⟨.diagnostics (d.diagnostics uri), d, []⟩
  | .resetDiagnostics uri =>
    let r := d.resetDiagnostics uri
    ⟨.flag r.answer, r.state, r.notices⟩
  | .resetState => ⟨.done, d.resetState, []⟩
  | .stopDebugging => ⟨.done, d.stopDebugging, []⟩
  | .setSettings settings => ⟨.done, d.setSettings settings, []⟩

/-- The debugger after a history. -/
def after (capture : Heap.Capture) (d : Debugger) (history : List Operation) : Debugger :=
  history.foldl (fun d op => (d.perform capture op).state) d

end Debugger

end ProofStepper
