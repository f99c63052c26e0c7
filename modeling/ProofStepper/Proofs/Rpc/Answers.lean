import ProofStepper.Proofs.Scheduler.Progress
import ProofStepper.Rpc.Server

/-!
# How requests are answered

What a request is refused for shows from the request alone: its version, its method, its
parameters, in this order. Every other request is served, and of those only a new
verification can still be refused, for one of three reasons.
-/
namespace ProofStepper.Rpc

open Scheduler (Timeline Verdict)

inductive Method where
  | trace
  | showHeap
  | renderHeap
  | resetState
  | openFile
  | closeFile
  | diagnostics
  | removeDiagnostics
  | stopDebugging
  | verify
  | stopVerification

namespace Method
variable {m m' : Method}

def name : Method → String
  | trace => "GetExecutionTrace"
  | showHeap => "ShowHeap"
  | renderHeap => "RenderHeap"
  | resetState => "ResetState"
  | openFile => "FileOpened"
  | closeFile => "FileClosed"
  | diagnostics => "GetDiagnostics"
  | removeDiagnostics => "RemoveDiagnostics"
  | stopDebugging => "StopDebugging"
  | verify => "Verify"
  | stopVerification => "StopVerification"

/-- The parameters are what the method takes. Two methods take none and accept any. -/
def Accepts : Method → Option Json → Prop
  | trace, params => ∃ p, TraceParams.ofJson (argument params) = .ok p
  | showHeap, params => ∃ p, HeapParams.ofJson (argument params) = .ok p
  | resetState, _ | stopDebugging, _ => True
  | verify, params => ∃ p, VerifyParams.ofJson (argument params) = .ok p
  | _, params => ∃ uri, readUri (argument params) = .ok uri

end Method

def Call.method : Call → Method
  | .trace _ => .trace
  | .showHeap _ => .showHeap
  | .renderHeap _ => .renderHeap
  | .resetState => .resetState
  | .openFile _ => .openFile
  | .closeFile _ => .closeFile
  | .diagnostics _ => .diagnostics
  | .removeDiagnostics _ => .removeDiagnostics
  | .stopDebugging => .stopDebugging
  | .verify _ => .verify
  | .stopVerification _ => .stopVerification

/-- What comes of a request before it is served. -/
inductive Request.Read (r : Request) : Except Error Call → Prop
  | version : r.jsonrpc ≠ "2.0" → Read r (.error .wrongVersion)
  | method : r.jsonrpc = "2.0" → (∀ m : Method, r.method ≠ m.name) →
      Read r (.error (.methodNotFound r.method))
  | params {m : Method} {message : String} : r.jsonrpc = "2.0" → r.method = m.name →
      ¬ m.Accepts r.params → Read r (.error (.invalidParams message))
  | call {c : Call} : r.jsonrpc = "2.0" → r.method = c.method.name →
      c.method.Accepts r.params → Read r (.ok c)

/-- The code of the error of a response, if it is one. -/
def Response.code? (response : Response) : Option Int := response.error.map (·.code)

/-- The verdict on a new verification and the response that goes with it. -/
inductive Settles (uri : String) : Verdict → Response → Prop
  | started {response : Response} : response.result = some (.bool true) →
      response.code? = none → Settles uri .started response
  | unknown {response : Response} : response.code? = some (-33003) →
      Settles uri (.refused (.unknownDocument uri)) response
  | unready {response : Response} : response.code? = some (-33001) →
      Settles uri (.refused .backendUnavailable) response
  | conflict {response : Response} : response.code? = some (-33002) →
      Settles uri (.refused .verificationConflict) response

theorem Settles.code {uri : String} {v : Verdict} {response : Response}
    (h : Settles uri v response) {code : Int} (hcode : response.code? = some code) :
    code = -33003 ∨ code = -33001 ∨ code = -33002 := by
  cases h with
  | started _ hnone =>
    rw [hnone] at hcode
    cases hcode
  | unknown hown =>
    rw [hown] at hcode
    cases hcode
    exact .inl rfl
  | unready hown =>
    rw [hown] at hcode
    cases hcode
    exact .inr (.inl rfl)
  | conflict hown =>
    rw [hown] at hcode
    cases hcode
    exact .inr (.inr rfl)

variable {capture : Heap.Capture} {t : Timeline}

/-- A build that checks its sums leaves a request without an answer only if it asks for a
page with a position that cannot be displayed. Every other request is answered as in the
released build. -/
theorem serve?_checked (capture : Heap.Capture) (t : Timeline) (r : Request) :
    serve? .checked capture t r = some (serve capture t r) ∨
      serve? .checked capture t r = none ∧ ∃ uri, Call.ofRequest r = .ok (.renderHeap uri) ∧
        ∃ p ∈ (t.state.debugger.heapView uri).panels, p.position.display? .checked = none := by
  unfold serve?
  cases hcall : Call.ofRequest r with
  | error e => exact .inl rfl
  | ok call =>
    dsimp only
    cases hserved : call.isServed .checked t with
    | true => exact .inl rfl
    | false =>
      cases call with
      | renderHeap uri =>
        obtain ⟨p, hp, hnone⟩ := List.all_eq_false.mp hserved
        exact .inr ⟨rfl, uri, rfl, p, hp, by simpa using hnone⟩
      | _ => cases hserved

end ProofStepper.Rpc
