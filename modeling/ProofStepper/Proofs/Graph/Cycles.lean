import Mathlib.Data.Nat.Find
import Mathlib.Logic.Relation
import ProofStepper.Proofs.Graph.Repair

/-!
# Cycles of parents

Since a step names one parent at most, the way up from it is unique: it ends at a root, or
it comes to a cycle and stays there. `MeetsCycle` says at which step it comes to the cycle.
Of all the steps that lead into a cycle, `Entry` picks the one with the smallest index.
-/
namespace ProofStepper.Graph

/-- Step `i` names step `p` as its parent. -/
def Names (parents : List (Option Nat)) (i p : Nat) : Prop := parentAt parents i = some p

/-- The way up from one step comes to another one. -/
def Leads (parents : List (Option Nat)) : Nat → Nat → Prop := Relation.ReflTransGen (Names parents)

def OnCycle (parents : List (Option Nat)) (i : Nat) : Prop := Relation.TransGen (Names parents) i i

/-- The first step on a cycle that the way up from a step comes to. -/
inductive MeetsCycle (parents : List (Option Nat)) : Nat → Nat → Prop
  | here {i : Nat} : OnCycle parents i → MeetsCycle parents i i
  | up {i p entry : Nat} : ¬ OnCycle parents i → parentAt parents i = some p →
      MeetsCycle parents p entry → MeetsCycle parents i entry

/-- The step at which the way up from `start` comes to a cycle, if no smaller step leads
into that cycle. -/
structure Entry (parents : List (Option Nat)) (start entry : Nat) : Prop where
  meets : MeetsCycle parents start entry
  least : ∀ i, Leads parents i entry → start ≤ i

variable {parents : List (Option Nat)} {i j p q e : Nat}

theorem names_unique : Relator.RightUnique (Names parents) := by
  intro i p q hp hq
  exact Option.some.inj (hp.symm.trans hq)

/-- Of two steps on the same way up one leads to the other. -/
theorem Leads.total (hi : Leads parents i p) (hj : Leads parents i q) :
    Leads parents p q ∨ Leads parents q p :=
  Relation.ReflTransGen.total_of_right_unique names_unique hi hj

theorem Leads.mono {later : List (Option Nat)}
    (h : ∀ i p, parentAt parents i = some p → parentAt later i = some p)
    (hl : Leads parents i j) : Leads later i j :=
  Relation.ReflTransGen.mono h _ _ hl

theorem OnCycle.exists_parent (h : OnCycle parents i) :
    ∃ p, parentAt parents i = some p ∧ Leads parents p i :=
  Relation.TransGen.head'_iff.mp h

/-- The parent of a step on a cycle is on the cycle. -/
theorem OnCycle.parent (h : OnCycle parents i) (hp : parentAt parents i = some p) :
    OnCycle parents p ∧ Leads parents p i := by
  obtain ⟨q, hq, hqi⟩ := h.exists_parent
  obtain rfl : p = q := names_unique hp hq
  exact ⟨Relation.TransGen.tail' hqi hp, hqi⟩

/-- A step on a cycle leads to steps of this cycle alone. -/
theorem OnCycle.of_leads (h : OnCycle parents i) (hl : Leads parents i j) :
    OnCycle parents j ∧ Leads parents j i := by
  induction hl with
  | refl => exact ⟨h, .refl⟩
  | tail _ hjk ih =>
    obtain ⟨hk, hkj⟩ := ih.1.parent hjk
    exact ⟨hk, hkj.trans ih.2⟩

/-- All that lies on the way to a step on a cycle leads to it. -/
theorem OnCycle.leads_of_leads (h : OnCycle parents e) (he : Leads parents i e)
    (hj : Leads parents i j) : Leads parents j e := by
  rcases he.total hj with hej | hje
  · exact (h.of_leads hej).2
  · exact hje

/-- The way to a step on a cycle passes no root. -/
theorem OnCycle.parent_of_leads (h : OnCycle parents e) (hl : Leads parents i e) :
    ∃ p, parentAt parents i = some p := by
  rcases Relation.ReflTransGen.cases_head hl with rfl | ⟨p, hp, -⟩
  · obtain ⟨p, hp, -⟩ := h.exists_parent
    exact ⟨p, hp⟩
  · exact ⟨p, hp⟩

theorem MeetsCycle.leads (h : MeetsCycle parents i e) : Leads parents i e := by
  induction h with
  | here _ => exact .refl
  | up _ hp _ ih => exact .head hp ih

theorem MeetsCycle.onCycle (h : MeetsCycle parents i e) : OnCycle parents e := by
  induction h with
  | here h => exact h
  | up _ _ _ ih => exact ih

theorem MeetsCycle.unique {e' : Nat} (h : MeetsCycle parents i e)
    (h' : MeetsCycle parents i e') : e = e' := by
  induction h with
  | here hc =>
    cases h' with
    | here _ => rfl
    | up hn _ _ => exact absurd hc hn
  | up hn hp _ ih =>
    cases h' with
    | here hc => exact absurd hc hn
    | up _ hq h' =>
      obtain rfl := names_unique hp hq
      exact ih h'

/-- Whatever leads into a cycle meets it somewhere. -/
theorem MeetsCycle.exists (hl : Leads parents i j) (hj : OnCycle parents j) :
    ∃ e, MeetsCycle parents i e ∧ Leads parents j e := by
  induction hl using Relation.ReflTransGen.head_induction_on with
  | refl => exact ⟨j, .here hj, .refl⟩
  | head hp hl ih =>
    rename_i i p
    by_cases hi : OnCycle parents i
    · exact ⟨i, .here hi, (hi.of_leads (.head hp hl)).2⟩
    · obtain ⟨e, he, hje⟩ := ih
      exact ⟨e, .up hi hp he, hje⟩

/-- Every cycle has an entry. -/
theorem Entry.exists (h : OnCycle parents i) :
    ∃ start e, Entry parents start e ∧ Leads parents i e := by
  classical
  have hex : ∃ start, Leads parents start i := ⟨i, .refl⟩
  obtain ⟨e, he, hie⟩ := MeetsCycle.exists (Nat.find_spec hex) h
  refine ⟨Nat.find hex, e, ⟨he, fun j hj => ?_⟩, hie⟩
  exact Nat.find_min' hex (hj.trans (h.of_leads hie).2)

/-- Two entries on one cycle are the same. -/
theorem Entry.unique {a b e' : Nat} (h : Entry parents a e) (h' : Entry parents b e')
    (hl : Leads parents e e') : a = b ∧ e = e' := by
  have hback := (h.meets.onCycle.of_leads hl).2
  have hab : a ≤ b := h.least b (h'.meets.leads.trans hback)
  have hba : b ≤ a := h'.least a (h.meets.leads.trans hl)
  obtain rfl : a = b := Nat.le_antisymm hab hba
  exact ⟨rfl, h.meets.unique h'.meets⟩

/-- The step that leads into a cycle belongs to the log. -/
theorem Entry.start_lt {a : Nat} (h : Entry parents a e) : a < parents.length := by
  cases h.meets with
  | here hc =>
    obtain ⟨p, hp, -⟩ := hc.exists_parent
    exact lt_length_of_parentAt hp
  | up _ hp _ => exact lt_length_of_parentAt hp

end ProofStepper.Graph
