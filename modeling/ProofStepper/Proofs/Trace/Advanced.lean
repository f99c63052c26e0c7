import ProofStepper.Proofs.Graph.Expansion
import ProofStepper.Proofs.Graph.Verifiables
import ProofStepper.Proofs.Trace.Simple

/-!
# Advanced traces

An advanced trace is a simple one with the surroundings of its state before it. The two
parts are told apart by their colours, so the simple trace can be read off an advanced
one, and every state of the surroundings lies in the verifiable of the state that is
explained.
-/
namespace ProofStepper

theorem Colour.muted_ne_accent (dark : Bool) : Colour.muted dark ≠ Colour.accent dark := by
  cases dark <;> decide

theorem colour_of_mem_entries {colour : String} {steps : List Step} {e : TraceEntry}
    (h : e ∈ entries colour steps) : e.colour = colour := by
  obtain ⟨n, -, rfl⟩ := List.mem_map.mp h
  rfl

theorem entries_append (colour : String) (steps later : List Step) :
    entries colour (steps ++ later) = entries colour steps ++ entries colour later := by
  rw [entries, List.filterMap_append, List.map_append]
  rfl

/-- The entries of a trace that have a colour. -/
def Trace.inColour (colour : String) (t : Trace) : Trace := t.filter fun e => e.colour = colour

theorem Trace.inColour_append (colour : String) (t u : Trace) :
    Trace.inColour colour (t ++ u) = t.inColour colour ++ u.inColour colour :=
  List.filter_append t u

theorem inColour_entries (colour : String) (steps : List Step) :
    (entries colour steps).inColour colour = entries colour steps :=
  List.filter_eq_self.mpr fun _ he => decide_eq_true (colour_of_mem_entries he)

theorem inColour_entries_of_ne {colour other : String} (h : other ≠ colour) (steps : List Step) :
    (entries other steps).inColour colour = [] :=
  List.filter_eq_nil_iff.mpr fun _ he hc =>
    h ((colour_of_mem_entries he).symm.trans (of_decide_eq_true hc))

namespace Run

variable {r : Run} {records : List Record} {target : Step}

/-- The theme decides on the colours of a trace and not on its states. -/
theorem states_traceOf (r : Run) (target : Step) (mode : TraceMode) (dark dark' : Bool) :
    (r.traceOf target ⟨mode, dark⟩).states = (r.traceOf target ⟨mode, dark'⟩).states := by
  cases mode with
  | simple => simp only [traceOf, states_entries]
  | advanced =>
    simp only [traceOf, Trace.states, List.map_append]
    exact congrArg₂ (· ++ ·)
      ((states_entries _ _).trans (states_entries _ _).symm)
      ((states_entries _ _).trans (states_entries _ _).symm)

/-- The shown steps without a parent in the verifiable of a step. -/
def topLevelBeside (r : Run) (target : Step) : List Step :=
  r.graph.steps.filter fun s => s.isShown ∧ s.parent = none ∧ s.verifiable = target.verifiable

theorem surroundings_eq (h : r.graph.Sound) (ht : r.graph.step? target.index = some target) :
    r.surroundings target =
      r.graph.expansion target.verifiable target.index ++ r.topLevelBeside target := by
  obtain ⟨v, hv, hindex⟩ := StateGraph.exists_verifiableOf? ht
  simp only [surroundings, hv]
  rw [hindex, h.shownTopLevel_eq ht hv]
  rfl

/-- Shown steps of one verifiable. -/
def ShownIn (r : Run) (verifiable : Nat) (steps : List Step) : Prop :=
  ∀ s ∈ steps, s ∈ r.graph.steps ∧ s.isShown = true ∧ s.verifiable = verifiable

theorem shownIn_visited {verifiable : Nat} {pending : List Nat} {visited : List Step}
    (h : r.graph.Unfolds verifiable pending visited) :
    r.ShownIn verifiable (visited.filter Step.isShown) := by
  intro s hs
  obtain ⟨hvisited, hshown⟩ := List.mem_filter.mp hs
  obtain ⟨hmem, hv⟩ := h.mem s hvisited
  exact ⟨hmem, hshown, hv⟩

theorem shownIn_topLevelBeside (r : Run) (target : Step) :
    r.ShownIn target.verifiable (r.topLevelBeside target) := by
  intro s hs
  obtain ⟨hmem, htop⟩ := List.mem_filter.mp hs
  obtain ⟨hshown, -, hv⟩ := of_decide_eq_true htop
  exact ⟨hmem, hshown, hv⟩

variable {verifiable : Nat} {steps : List Step}

theorem ShownIn.step? (h : (ofRecords records).ShownIn verifiable steps) {s : Step}
    (hs : s ∈ steps) : (ofRecords records).graph.step? s.index = some s :=
  (StateGraph.ofRecords_sound records).mem_steps.mp (h s hs).1

theorem ShownIn.shows (h : (ofRecords records).ShownIn verifiable steps) (colour : String) :
    List.Forall₂ (TraceEntry.Shows colour) (entries colour steps) steps := by
  refine forall₂_entries colour fun s hs => ?_
  rw [StateGraph.number_eq (h.step? hs), if_pos (h s hs).2.1]
  rfl

/-- The entries made from steps of a verifiable lead to steps of it. -/
theorem ShownIn.resolves (h : (ofRecords records).ShownIn verifiable steps) (colour : String) :
    ∀ e ∈ entries colour steps, ∃ s, (ofRecords records).step e.state = .ok s ∧
      s.verifiable = verifiable := by
  intro e he
  obtain ⟨n, hn, rfl⟩ := List.mem_map.mp he
  obtain ⟨s, hs, hnumber⟩ := List.mem_filterMap.mp hn
  exact ⟨s, step_eq_ok_iff.mpr ⟨h.step? hs, hnumber⟩, (h s hs).2.2⟩

/-- What the advanced trace of a client state is put together from: `visited` is the
expansion of its step with the hidden states, and the three parts are traces. -/
structure FullyExplains (r : Run) (number : Nat) (dark : Bool) (target : Step)
    (visited : List Step) (expansion topLevel path : Trace) : Prop where
  resolved : r.step number = .ok target
  simple : r.trace number { mode := .simple, dark } = .ok path
  advanced : r.trace number { mode := .advanced, dark } = .ok (expansion ++ topLevel ++ path)
  unfolds : r.graph.Unfolds target.verifiable (r.graph.children target.index) visited
  expansion_shows :
    List.Forall₂ (TraceEntry.Shows (Colour.muted dark)) expansion (visited.filter Step.isShown)
  topLevel_shows :
    List.Forall₂ (TraceEntry.Shows (Colour.muted dark)) topLevel (r.topLevelBeside target)
  path_colour : ∀ e ∈ path, e.colour = Colour.accent dark
  path_in_colour : (expansion ++ topLevel ++ path).inColour (Colour.accent dark) = path
  within : ∀ e ∈ expansion ++ topLevel, ∃ s, r.step e.state = .ok s ∧
    s.verifiable = target.verifiable

theorem exists_fullyExplains {number : Nat} (h : (ofRecords records).step number = .ok target)
    (dark : Bool) : ∃ visited expansion topLevel path,
      (ofRecords records).FullyExplains number dark target visited expansion topLevel path := by
  obtain ⟨hstep, -⟩ := step_eq_ok_iff.mp h
  have hsound : (ofRecords records).graph.Sound := StateGraph.ofRecords_sound records
  obtain ⟨visited, hunfolds, hexpansion⟩ := hsound.exists_unfolds target.verifiable hstep
  have hvisited := shownIn_visited hunfolds
  have htop := shownIn_topLevelBeside (ofRecords records) target
  have hne := Colour.muted_ne_accent dark
  refine ⟨visited, entries (Colour.muted dark) (visited.filter Step.isShown),
    entries (Colour.muted dark) ((ofRecords records).topLevelBeside target),
    entries (Colour.accent dark) ((ofRecords records).reported target), ?_⟩
  exact {
    resolved := h
    simple := by
      rw [trace, h]
      rfl
    advanced := by
      rw [trace, h, ← entries_append, ← hexpansion, ← surroundings_eq hsound hstep]
      rfl
    unfolds := hunfolds
    expansion_shows := hvisited.shows _
    topLevel_shows := htop.shows _
    path_colour := fun _ he => colour_of_mem_entries he
    path_in_colour := by
      rw [Trace.inColour_append, Trace.inColour_append, inColour_entries_of_ne hne,
        inColour_entries_of_ne hne, inColour_entries, List.append_nil, List.nil_append]
    within := by
      intro e he
      rcases List.mem_append.mp he with he | he
      · exact hvisited.resolves _ e he
      · exact htop.resolves _ e he }

/-- What the traces of a client state have to do with each other. -/
structure TracesAgree (r : Run) (number : Nat) : Prop where
  known : number < r.shown.length → ∃ target, ∀ dark, ∃ visited expansion topLevel path,
    r.FullyExplains number dark target visited expansion topLevel path
  unknown : r.shown.length ≤ number → ∀ style,
    r.trace number style = .error (.unknownClientState number r.shown.length)
  themes : ∀ mode dark dark', (r.trace number ⟨mode, dark⟩).map Trace.states =
    (r.trace number ⟨mode, dark'⟩).map Trace.states

/-- In every completed run the advanced trace of a client state is its simple trace, with
the expansion of the state and the top level of its verifiable before it. -/
theorem trace_advanced (records : List Record) (number : Nat) :
    (ofRecords records).TracesAgree number where
  known h := by
    obtain ⟨target, htarget⟩ := step_of_lt h
    exact ⟨target, exists_fullyExplains htarget⟩
  unknown h style := by
    rw [shown_length] at h ⊢
    rw [trace, step_of_ge h]
    rfl
  themes mode dark dark' := by
    simp only [trace]
    cases (ofRecords records).step number with
    | error e => rfl
    | ok target => exact congrArg Except.ok (states_traceOf _ target mode dark dark')

/-- Two verifiables whose records lie mixed. The record at index 3 is of another one than
its parent, so that nothing is visited below it, and the record at index 5 is hidden. -/
def mixedLog : List Record :=
  [Record.shown (.new 0 none), Record.shown (.new 1 none), Record.shown (.new 0 (some 0)),
    Record.shown (.new 1 (some 0)), Record.shown (.new 0 (some 3)), .new 0 (some 2),
    Record.shown (.new 0 (some 5))]

example : (ofRecords mixedLog).trace 0 { mode := .advanced } =
    .ok [⟨2, "darkgrey", true⟩, ⟨5, "darkgrey", true⟩, ⟨0, "darkgrey", true⟩,
      ⟨0, "orange", true⟩] := by
  cbv

end Run

end ProofStepper
