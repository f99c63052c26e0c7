import ProofStepper.Failure
import ProofStepper.Heap.View

/-!
# The two heap slots

A store keeps a snapshot in each of two slots. It does not know which one is newer:
whoever asks for the view names the slot that is to be filled next, and the other slot
holds the newer snapshot.
-/

namespace ProofStepper.Heap

def slotCount : Nat := 2

structure Store where
  first : Option Snapshot := none
  second : Option Snapshot := none
deriving DecidableEq, Repr, Inhabited

namespace Store

def get? (s : Store) (slot : Nat) : Option Snapshot :=
  match slot with
  | 0 => s.first
  | 1 => s.second
  | _ => none

/-- Puts a snapshot into a slot and tells whether there is such a slot. -/
def put (s : Store) (slot : Nat) (snapshot : Snapshot) : Store × Except Failure Unit :=
  match slot with
  | 0 => ({ s with first := some snapshot }, .ok ())
  | 1 => ({ s with second := some snapshot }, .ok ())
  | _ => (s, .error (.invalidHeapSlot slot))

/-- The store with a snapshot in a slot, for those who go on only if there is such a slot. -/
def set (s : Store) (slot : Nat) (snapshot : Snapshot) : Except Failure Store :=
  match s.put slot snapshot with
  | (_, .error e) => .error e
  | (t, .ok ()) => .ok t

/-- The number of filled slots. -/
def size (s : Store) : Nat :=
  (if s.first.isSome then 1 else 0) + (if s.second.isSome then 1 else 0)

def isEmpty (s : Store) : Bool := s.size == 0

/-- The view for a next slot. A number that names no slot counts by its parity. -/
def view (s : Store) (next : Nat) : View :=
  let older := next % slotCount
  let newer := 1 - older
  match s.get? newer, s.get? older with
  | some n, some o =>
    .comparison (.ofSnapshot .newer newer n (some o)) (.ofSnapshot .older older o (some n))
  | some n, none => .single (.ofSnapshot .only newer n none)
  | none, some o => .single (.ofSnapshot .only older o none)
  | none, none => .empty

def viewNotices (next : Nat) : List Notice :=
  if next < slotCount then []
  else
    [.error "invalid parity index for heap rendering" [("next_heap_index", toString next)]]

end Store

end ProofStepper.Heap
