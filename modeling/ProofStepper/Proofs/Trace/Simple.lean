import Mathlib.Data.List.Forall2
import Mathlib.Data.List.Infix
import ProofStepper.Proofs.Numbering
import ProofStepper.Proofs.Trace.Walk
import ProofStepper.Trace.Explain

/-!
# Simple traces

The bound that is lowered along a walk is the depth of the shallowest shown step so far,
so a simple trace consists of the shown steps of the walk that are no deeper than any
shown step before them. `noDeeper` says so without a bound.
-/
namespace ProofStepper

/-- The shown steps of a list that are no deeper than any shown step before them. -/
def noDeeper (steps : List Step) : List Step :=
  ((steps.zip steps.inits).filter fun (s, earlier) =>
    s.isShown ∧ ∀ t ∈ earlier, t.isShown → s.depth ≤ t.depth).map (·.1)

/-- `bound` is the least depth of the shown steps met so far. -/
def Bounds (bound : Nat) (earlier : List Step) : Prop :=
  ∀ d, d ≤ bound ↔ ∀ t ∈ earlier, t.isShown = true → d ≤ t.depth

theorem Bounds.lower {bound : Nat} {earlier : List Step} {s : Step} (h : Bounds bound earlier)
    (hs : s.isShown = true) (hd : s.depth ≤ bound) : Bounds s.depth (earlier ++ [s]) := by
  intro d
  simp only [List.forall_mem_append, List.forall_mem_singleton, hs, forall_const]
  rw [← h d]
  omega

theorem Bounds.pass {bound : Nat} {earlier : List Step} {s : Step} (h : Bounds bound earlier)
    (hs : ¬ (s.isShown = true ∧ s.depth ≤ bound)) : Bounds bound (earlier ++ [s]) := by
  intro d
  simp only [List.forall_mem_append, List.forall_mem_singleton]
  rw [← h d]
  constructor
  · intro hd
    refine ⟨hd, fun hshown => ?_⟩
    have : ¬ s.depth ≤ bound := fun hle => hs ⟨hshown, hle⟩
    omega
  · exact And.left

/-- The part of `noDeeper` that comes after `earlier`. -/
theorem withinBound_eq {bound : Nat} {earlier : List Step} (h : Bounds bound earlier)
    (steps : List Step) :
    withinBound bound steps =
      ((steps.zip (steps.inits.map (earlier ++ ·))).filter fun (s, before) =>
        s.isShown ∧ ∀ t ∈ before, t.isShown → s.depth ≤ t.depth).map (·.1) := by
  induction steps generalizing bound earlier with
  | nil => rfl
  | cons s rest ih =>
    have hinits : (s :: rest).inits.map (earlier ++ ·) =
        earlier :: rest.inits.map ((earlier ++ [s]) ++ ·) := by
      simp [Function.comp_def]
    rw [hinits, List.zip_cons_cons, withinBound]
    by_cases hs : s.isShown = true ∧ s.depth ≤ bound
    · rw [if_pos hs, List.filter_cons_of_pos, List.map_cons, ← ih (h.lower hs.1 hs.2)]
      simpa [hs.1] using (h s.depth).mp hs.2
    · rw [if_neg hs, List.filter_cons_of_neg, ← ih (h.pass hs)]
      simp only [decide_eq_true_eq]
      rintro ⟨hshown, hle⟩
      exact hs ⟨hshown, (h s.depth).mpr hle⟩

/-- The first step of a walk is shown and makes the first bound. -/
theorem withinBound_cons {s : Step} (hs : s.isShown = true) (rest : List Step) :
    withinBound s.depth (s :: rest) = noDeeper (s :: rest) := by
  have hb : Bounds s.depth [s] := by
    intro d
    simp [hs]
  rw [withinBound, if_pos ⟨hs, Nat.le_refl _⟩, withinBound_eq hb, noDeeper, List.inits_cons,
    List.zip_cons_cons, List.filter_cons_of_pos (by simp [hs])]
  rfl

theorem mem_zip_inits {s : Step} {earlier steps : List Step} :
    (s, earlier) ∈ steps.zip steps.inits ↔ ∃ later, steps = earlier ++ s :: later := by
  induction steps generalizing earlier with
  | nil => simp
  | cons t rest ih =>
    rw [List.inits_cons, List.zip_cons_cons, List.zip_map_right, List.mem_cons, List.mem_map]
    constructor
    · rintro (h | ⟨⟨u, before⟩, h, he⟩)
      · cases h
        exact ⟨rest, rfl⟩
      · cases he
        obtain ⟨later, rfl⟩ := ih.mp h
        exact ⟨later, rfl⟩
    · rintro ⟨later, h⟩
      cases earlier with
      | nil =>
        cases h
        exact .inl rfl
      | cons u before =>
        cases h
        exact .inr ⟨(s, before), ih.mpr ⟨later, rfl⟩, rfl⟩

/-- A step is kept at a place where no shown step before it is less deep. -/
theorem mem_noDeeper_iff {s : Step} {steps : List Step} :
    s ∈ noDeeper steps ↔ ∃ earlier later, steps = earlier ++ s :: later ∧ s.isShown = true ∧
      ∀ t ∈ earlier, t.isShown = true → s.depth ≤ t.depth := by
  simp only [noDeeper, List.mem_map, List.mem_filter, decide_eq_true_eq]
  constructor
  · rintro ⟨⟨_, earlier⟩, ⟨hmem, hshown, hdepth⟩, rfl⟩
    obtain ⟨later, h⟩ := mem_zip_inits.mp hmem
    exact ⟨earlier, later, h, hshown, hdepth⟩
  · rintro ⟨earlier, later, h, hshown, hdepth⟩
    exact ⟨(s, earlier), ⟨mem_zip_inits.mpr ⟨later, h⟩, hshown, hdepth⟩, rfl⟩

theorem withinBound_sublist (bound : Nat) (steps : List Step) :
    (withinBound bound steps).Sublist steps := by
  induction steps generalizing bound with
  | nil => exact .slnil
  | cons s rest ih =>
    rw [withinBound]
    split
    · exact (ih s.depth).cons_cons s
    · exact (ih bound).cons s

theorem isShown_of_mem_withinBound {bound : Nat} {steps : List Step} :
    ∀ s ∈ withinBound bound steps, s.isShown = true := by
  induction steps generalizing bound with
  | nil => simp [withinBound]
  | cons s rest ih =>
    rw [withinBound]
    split
    · rename_i hs
      simpa using ⟨hs.1, fun t ht => ih t ht⟩
    · exact ih

theorem depth_le_of_mem_withinBound {bound : Nat} {steps : List Step} :
    ∀ s ∈ withinBound bound steps, s.depth ≤ bound := by
  induction steps generalizing bound with
  | nil => simp [withinBound]
  | cons s rest ih =>
    rw [withinBound]
    split
    · rename_i hs
      simpa using ⟨hs.2, fun t ht => (ih t ht).trans hs.2⟩
    · exact ih

theorem withinBound_depths (bound : Nat) (steps : List Step) :
    (withinBound bound steps).Pairwise fun s t => t.depth ≤ s.depth := by
  induction steps generalizing bound with
  | nil => exact .nil
  | cons s rest ih =>
    rw [withinBound]
    split
    · exact .cons (fun t ht => depth_le_of_mem_withinBound t ht) (ih s.depth)
    · exact ih bound

/-- An entry shows a step under its number. -/
def TraceEntry.Shows (colour : String) (e : TraceEntry) (s : Step) : Prop :=
  s.number = some e.state ∧ e.colour = colour ∧ e.showNumber = true

theorem forall₂_entries (colour : String) {steps : List Step}
    (h : ∀ s ∈ steps, s.number.isSome) :
    List.Forall₂ (TraceEntry.Shows colour) (entries colour steps) steps := by
  induction steps with
  | nil => exact .nil
  | cons s rest ih =>
    obtain ⟨n, hn⟩ := Option.isSome_iff_exists.mp (h s (by simp))
    have hcons : entries colour (s :: rest) = { state := n, colour } :: entries colour rest := by
      simp [entries, hn]
    rw [hcons]
    exact .cons ⟨hn, rfl, rfl⟩ (ih fun t ht => h t (by simp [ht]))

theorem states_entries (colour : String) (steps : List Step) :
    Trace.states (entries colour steps) = steps.filterMap (·.number) := by
  simp [Trace.states, entries, Function.comp_def]

theorem mem_notices_iff (w : Walk) (n : Notice) :
    n ∈ w.notices ↔
      ∃ here there, w.blocked = some (here, there) ∧ n = blockedNotice here there := by
  unfold Walk.notices
  split <;> rename_i h <;> simp [h]

namespace Run

variable {records : List Record}

theorem trace_of_step {r : Run} {number : Nat} {target : Step} (h : r.step number = .ok target)
    (dark : Bool) :
    r.trace number { mode := .simple, dark } =
      .ok (entries (Colour.accent dark) (r.reported target)) := by
  rw [trace, h]
  rfl

/-- Entries that show steps of a run resolve to them. -/
theorem resolves_of_shows {colour : String} {t : Trace} {steps : List Step}
    (h : List.Forall₂ (TraceEntry.Shows colour) t steps)
    (hmem : ∀ s ∈ steps, (ofRecords records).graph.step? s.index = some s) :
    List.Forall₂ (fun e s => (ofRecords records).step e.state = .ok s) t steps := by
  induction h with
  | nil => exact .nil
  | cons hs _ ih =>
    exact .cons (step_eq_ok_iff.mpr ⟨hmem _ (by simp), hs.1⟩) (ih fun u hu => hmem u (by simp [hu]))

/-- Going down in a log, the numbers go down. -/
theorem numbers_sorted {steps : List Step} (hs : steps.Pairwise fun s t => t.index < s.index)
    (hmem : ∀ s ∈ steps, (ofRecords records).graph.step? s.index = some s) :
    (steps.filterMap (·.number)).Pairwise (· > ·) := by
  rw [List.pairwise_filterMap]
  apply hs.imp_of_mem
  intro s t hs ht hlt m hm n hn
  exact number_lt hlt (hmem t ht) hn (hmem s hs) hm

theorem simple_trace_eq {number : Nat} {target : Step}
    (h : (ofRecords records).step number = .ok target) (dark : Bool) :
    (ofRecords records).trace number { mode := .simple, dark } =
      .ok (entries (Colour.accent dark)
        (noDeeper ((ofRecords records).graph.walk target).steps)) := by
  obtain ⟨hstep, hnumber⟩ := step_eq_ok_iff.mp h
  have hsound : (ofRecords records).graph.Sound := StateGraph.ofRecords_sound records
  have hshown := StateGraph.isShown_of_number hstep hnumber
  obtain ⟨rest, hrest⟩ := List.head?_eq_some_iff.mp (hsound.walk_isWalk hstep).starts
  have hreported : (ofRecords records).reported target =
      noDeeper ((ofRecords records).graph.walk target).steps := by
    simp only [reported, hrest]
    exact withinBound_cons hshown rest
  simp [trace, h, Except.map, traceOf, hreported]

/-- The entries of a simple trace stand for the steps of the walk that are no deeper than
those before them. -/
theorem simple_trace_steps {number : Nat} {target : Step}
    (h : (ofRecords records).step number = .ok target) (colour : String) :
    let kept := noDeeper ((ofRecords records).graph.walk target).steps
    (∀ e ∈ entries colour kept, ∃ s ∈ kept, (ofRecords records).step e.state = .ok s) ∧
    ∀ s ∈ kept, ∃ e ∈ entries colour kept, (ofRecords records).step e.state = .ok s := by
  intro kept
  obtain ⟨hstep, -⟩ := step_eq_ok_iff.mp h
  have hsound : (ofRecords records).graph.Sound := StateGraph.ofRecords_sound records
  have hgraph : ∀ s ∈ kept, (ofRecords records).graph.step? s.index = some s := by
    intro s hs
    obtain ⟨earlier, later, hwalk, -⟩ := mem_noDeeper_iff.mp hs
    exact hsound.mem_walk hstep s (by simp [hwalk])
  constructor
  · intro e he
    simp only [entries, List.mem_map, List.mem_filterMap] at he
    obtain ⟨n, ⟨s, hs, hn⟩, rfl⟩ := he
    exact ⟨s, hs, step_eq_ok_iff.mpr ⟨hgraph s hs, hn⟩⟩
  · intro s hs
    obtain ⟨-, -, -, hshown, -⟩ := mem_noDeeper_iff.mp hs
    have hn := StateGraph.number_eq (hgraph s hs)
    rw [if_pos hshown] at hn
    refine ⟨⟨_, colour, true⟩, ?_, step_eq_ok_iff.mpr ⟨hgraph s hs, hn⟩⟩
    simp only [entries, List.mem_map, List.mem_filterMap]
    exact ⟨_, ⟨s, hs, hn⟩, rfl⟩

/-- What the simple trace of a client state consists of, for the walk from its step. -/
structure SimplyExplains (r : Run) (number : Nat) (dark : Bool) (target : Step)
    (walk : List Step) (t : Trace) : Prop where
  resolved : r.step number = .ok target
  walked : r.graph.IsWalk target walk
  shows : List.Forall₂ (TraceEntry.Shows (Colour.accent dark)) t (noDeeper walk)
  first : t.states.head? = some number
  numbers_decrease : t.states.Pairwise (· > ·)
  depths_decrease : (noDeeper walk).Pairwise fun s u => u.depth ≤ s.depth
  resolves : List.Forall₂ (fun e s => r.step e.state = .ok s) t (noDeeper walk)
  warns : ∀ n, n ∈ r.traceNotices number ↔ ∃ last ∈ walk.getLast?, ∃ p,
    last.isBranch = true ∧ last.parent = some p ∧ last.index < p ∧ n = blockedNotice last.index p

/-- Every client state of a completed run has a simple trace. -/
theorem trace_simple {number : Nat} (h : number < (ofRecords records).shown.length) (dark : Bool) :
    ∃ target walk t, (ofRecords records).trace number { mode := .simple, dark } = .ok t ∧
      (ofRecords records).SimplyExplains number dark target walk t := by
  obtain ⟨target, htarget⟩ := step_of_lt h
  obtain ⟨hstep, hnumber⟩ := step_eq_ok_iff.mp htarget
  have hsound : (ofRecords records).graph.Sound := StateGraph.ofRecords_sound records
  have hshown := StateGraph.isShown_of_number hstep hnumber
  have hwalk := hsound.walk_isWalk hstep
  let reported := (ofRecords records).reported target
  have hsub : reported.Sublist ((ofRecords records).graph.walk target).steps :=
    withinBound_sublist _ _
  have hmem : ∀ s ∈ reported, (ofRecords records).graph.step? s.index = some s :=
    fun s hs => hsound.mem_walk hstep s (hsub.subset hs)
  have hsome : ∀ s ∈ reported, s.number.isSome := by
    intro s hs
    rw [StateGraph.number_eq (hmem s hs), if_pos (isShown_of_mem_withinBound s hs)]
    rfl
  obtain ⟨rest, hrest⟩ := List.head?_eq_some_iff.mp hwalk.starts
  have hreported : reported = noDeeper ((ofRecords records).graph.walk target).steps := by
    simp only [reported, Run.reported, hrest]
    exact withinBound_cons hshown rest
  have hshows := forall₂_entries (Colour.accent dark) hsome
  refine ⟨target, _, entries (Colour.accent dark) reported, ?_, htarget, hwalk,
    ?_, ?_, ?_, ?_, ?_, ?_⟩
  · simp [trace, htarget, Except.map, traceOf, reported]
  · rwa [← hreported]
  · rw [states_entries, hreported, hrest, ← withinBound_cons hshown, withinBound,
      if_pos ⟨hshown, Nat.le_refl _⟩, List.filterMap_cons_some hnumber]
    rfl
  · rw [states_entries]
    exact numbers_sorted (hwalk.sorted.sublist hsub) hmem
  · rw [← hreported]
    exact withinBound_depths _ _
  · rw [← hreported]
    exact resolves_of_shows hshows hmem
  · intro n
    simp only [traceNotices, htarget, mem_notices_iff, hsound.blocked_iff hstep]
    constructor
    · rintro ⟨_, p, ⟨last, hlast, rfl, hb, hp, hlt⟩, rfl⟩
      exact ⟨last, hlast, p, hb, hp, hlt, rfl⟩
    · rintro ⟨last, hlast, p, hb, hp, hlt, rfl⟩
      exact ⟨_, p, ⟨last, hlast, rfl, hb, hp, hlt⟩, rfl⟩

/-- The branch at index 2 was derived from a later state, which blocks every walk that
comes to it. -/
def forwardParentLog : List Record :=
  [Record.shown (.new 0 none), Record.shown (.new 0 (some 0)),
    Record.branch (Record.shown (.new 0 (some 4))), .new 0 (some 1), Record.shown (.new 0 (some 0))]

theorem trace_simple_forward_parent :
    3 < (ofRecords forwardParentLog).shown.length ∧
      ∃ target walk t,
        (ofRecords forwardParentLog).trace 3 { mode := .simple, dark := true } = .ok t ∧
        (ofRecords forwardParentLog).SimplyExplains 3 true target walk t :=
  ⟨by decide, trace_simple (by decide) true⟩

end Run

end ProofStepper
