import ProofStepper.Heap.Page
import ProofStepper.Heap.Store

/-!
# Heap sessions

What a document shows of the heap: the two slots, the slot to be filled next, a text
about the run, and a revision that grows whenever what is shown may have changed.
Dropping the snapshots alone keeps the next slot; a full reset starts again at the
first one.
-/

namespace ProofStepper.Heap

structure Session where
  store : Store := {}
  next : Nat := 0
  revision : Nat := 0
  info : String := ""
deriving DecidableEq, Repr, Inhabited

namespace Session

def setInfo (s : Session) (info : String) : Session :=
  { s with info, revision := s.revision + 1 }

/-- Puts a snapshot into the next slot. -/
def push (s : Session) (snapshot : Snapshot) : Except Failure Session :=
  match s.store.set s.next snapshot with
  | .error e => .error e
  | .ok store =>
    .ok { s with store, next := (s.next + 1) % slotCount, revision := s.revision + 1 }

def view (s : Session) : View := s.store.view s.next

def dropSnapshots (s : Session) : Session :=
  { s with store := {}, revision := s.revision + 1 }

def reset (s : Session) : Session := { revision := s.revision + 1 }

/-- The page of a document. -/
def page (s : Session) (dir source : String) : String := Page.render dir s.view s.info source

end Session

end ProofStepper.Heap
