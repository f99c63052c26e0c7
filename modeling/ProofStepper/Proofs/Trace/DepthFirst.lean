import ProofStepper.Proofs.Trace.Simple

/-!
# Walks through depth-first logs

In a log that was made depth first, whatever lies above a step also lies on or above the
step made just before it. So a walk never leaves the tree of its start, does not pass by
an ancestor of the start, and meets nothing but deeper steps before it comes to one.
-/
namespace ProofStepper

namespace StateGraph

/-- Every step that keeps a parent was made right after it or after one of its
descendants. -/
def DepthFirst (g : StateGraph) : Prop :=
  ∀ i p, g.Up i p → ∃ j k, i = j + 1 ∧ g.Ascends j k p

section
variable {g : StateGraph} {s t : Step}

theorem up_iff {i p : Nat} : g.Up i p ↔ (g.steps.map (·.parent))[i]? = some (some p) := by
  rw [List.getElem?_map, Option.map_eq_some_iff]
  rfl

theorem parent_of_up (hs : g.step? s.index = some s) {p : Nat} (hup : g.Up s.index p) :
    s.parent = some p := by
  obtain ⟨u, hu, hp⟩ := hup
  rw [hs] at hu
  cases hu
  exact hp

/-- In a depth-first log parents come first. -/
theorem DepthFirst.up_lt (h : g.DepthFirst) {i p : Nat} (hup : g.Up i p) : p < i := by
  induction i using Nat.strong_induction_on generalizing p with
  | h i ih =>
    obtain ⟨j, k, rfl, ha⟩ := h i p hup
    have hle : ∀ {a k r}, g.Ascends a k r → a ≤ j → r ≤ a := by
      intro a k r ha
      induction ha with
      | here a => exact fun _ => Nat.le_refl a
      | up hup _ ih' =>
        intro ha
        have hlt := ih _ (by omega) hup
        have := ih' (by omega)
        omega
    have := hle ha (Nat.le_refl j)
    omega

/-- A move leads to a step that lies below all strict ancestors of the step before or is
one of them. -/
theorem DepthFirst.ascends_of_next (h : g.DepthFirst) (hg : g.Sound)
    (hs : g.step? s.index = some s) (hn : g.Next s t) {k a : Nat}
    (ha : g.Ascends s.index (k + 1) a) : ∃ m, g.Ascends t.index m a := by
  cases ha with
  | up hup ha =>
    obtain ⟨u, hu, hp⟩ := hup
    rw [hs] at hu
    cases hu
    cases hn with
    | parent _ hp' ht =>
      rw [hp] at hp'
      cases hp'
      rw [hg.index ht]
      exact ⟨k, ha⟩
    | before _ _ hi ht =>
      obtain ⟨j, m, hj, hm⟩ := h s.index _ ⟨s, hs, hp⟩
      obtain rfl : j = _ := Nat.succ.inj (hj.symm.trans hi)
      rw [hg.index ht]
      exact ⟨m + k, hm.trans ha⟩

theorem DepthFirst.next_lt (h : g.DepthFirst) (hg : g.Sound) (hs : g.step? s.index = some s)
    (hn : g.Next s t) : t.index < s.index := by
  cases hn with
  | parent _ hp ht =>
    rw [hg.index ht]
    exact h.up_lt ⟨s, hs, hp⟩
  | before _ _ hi ht =>
    rw [hg.index ht]
    omega

/-- A walk goes on from every step that has a parent. -/
theorem DepthFirst.exists_moves (h : g.DepthFirst) (hg : g.Sound)
    (hs : g.step? s.index = some s) {p : Nat} (hp : s.parent = some p) : ∃ t, g.Moves s t := by
  have hlt := h.up_lt ⟨s, hs, hp⟩
  obtain ⟨t, hn⟩ := hg.exists_next hs hp fun _ => Nat.zero_lt_of_lt hlt
  exact ⟨t, hn, h.next_lt hg hs hn⟩

/-- A walk stays in its tree. -/
theorem DepthFirst.root_of_walk (h : g.DepthFirst) (hg : g.Sound)
    (hs : g.step? s.index = some s) {k r : Nat} (ha : g.Ascends s.index k r) (hr : g.IsRoot r) :
    ∀ t ∈ (g.walk s).steps, ∃ m, g.Ascends t.index m r := by
  refine hg.forall_mem_walk hs ⟨k, ha⟩ ?_
  rintro s t hs ⟨k, ha⟩ ⟨hn, -⟩
  cases k with
  | succ k => exact h.ascends_of_next hg hs hn ha
  | zero =>
    cases ha
    obtain ⟨u, hu, hp⟩ := hr
    rw [hs] at hu
    cases hu
    cases hn <;> simp_all

theorem DepthFirst.walk_ends (h : g.DepthFirst) (hg : g.Sound) (hs : g.step? s.index = some s) :
    (∃ last ∈ (g.walk s).steps.getLast?, last.parent = none) ∧ (g.walk s).blocked = none :=
  hg.walk_ends_at_parentless hs fun t ht _ hp => h.exists_moves hg (hg.mem_walk hs t ht) hp

/-- A walk ends at the root of its tree. -/
theorem DepthFirst.walk_ends_at_root (h : g.DepthFirst) (hg : g.Sound)
    (hs : g.step? s.index = some s) {k r : Nat} (ha : g.Ascends s.index k r) (hr : g.IsRoot r) :
    ∀ last ∈ (g.walk s).steps.getLast?, last.index = r := by
  intro last hlast
  have hmem := List.mem_of_getLast? hlast
  obtain ⟨⟨root, hroot, hnone⟩, -⟩ := h.walk_ends hg hs
  obtain rfl : root = last := Option.some.inj (hroot.symm.trans hlast)
  obtain ⟨m, hm⟩ := h.root_of_walk hg hs ha hr root hmem
  cases hm with
  | here => rfl
  | up hup _ =>
    rw [parent_of_up (hg.mem_walk hs root hmem) hup] at hnone
    cases hnone

/-- No walk is blocked. -/
theorem DepthFirst.walk_unblocked (h : g.DepthFirst) (hg : g.Sound)
    (hs : g.step? s.index = some s) : (g.walk s).blocked = none :=
  (h.walk_ends hg hs).2

/-- A walk comes to every ancestor of its start, past descendants of it alone. -/
theorem DepthFirst.walk_meets (h : g.DepthFirst) (hg : g.Sound)
    (hs : g.step? s.index = some s) {k a : Nat} (ha : g.Ascends s.index k a) :
    ∃ earlier u later, (g.walk s).steps = earlier ++ u :: later ∧ u.index = a ∧
      ∀ x ∈ earlier, ∃ m, g.Ascends x.index (m + 1) a := by
  fun_induction walk g s generalizing k with
  | case1 s hb =>
    cases ha with
    | here => exact ⟨[], s, [], rfl, rfl, by simp⟩
    | up hup _ =>
      obtain ⟨t, hn, -⟩ := h.exists_moves hg hs (parent_of_up hs hup)
      rw [(back?_eq_some_iff hs).mpr hn] at hb
      cases hb
  | case2 s t hb hlt rest ih =>
    cases ha with
    | here => exact ⟨[], s, _, rfl, rfl, by simp⟩
    | up hup hpa =>
      have hn := (back?_eq_some_iff hs).mp hb
      obtain ⟨m, hm⟩ := h.ascends_of_next hg hs hn (.up hup hpa)
      obtain ⟨earlier, u, later, hwalk, hu, hbelow⟩ := ih (hg.step?_of_next hn) hm
      refine ⟨s :: earlier, u, later, by simp [rest, hwalk], hu, ?_⟩
      simp only [List.forall_mem_cons]
      exact ⟨⟨_, .up hup hpa⟩, hbelow⟩
  | case3 s t hb hlt =>
    exact absurd (h.next_lt hg hs ((back?_eq_some_iff hs).mp hb)) hlt

/-- A step is an ancestor of the target, or hangs below one whose child on the way was met
before. -/
def Flanks (g : StateGraph) (target : Nat) (met : List Step) (x : Step) : Prop :=
  (∃ k, g.Ascends target k x.index) ∨
    ∃ b ∈ met, ∃ a k m, g.Ascends target k b.index ∧ g.Up b.index a ∧
      g.Ascends x.index (m + 1) a

theorem DepthFirst.flanks_of_next (h : g.DepthFirst) (hg : g.Sound) {target : Nat}
    {met : List Step} (hs : g.step? s.index = some s) (hn : g.Next s t)
    (hf : g.Flanks target met s) : g.Flanks target (met ++ [s]) t := by
  rcases hf with ⟨k, hk⟩ | ⟨b, hb, a, k, m, hk, hup, hm⟩
  · obtain ⟨p, hp⟩ : ∃ p, s.parent = some p := by
      cases hn with
      | parent _ hp _ => exact ⟨_, hp⟩
      | before _ hp _ _ => exact ⟨_, hp⟩
    have hup : g.Up s.index p := ⟨s, hs, hp⟩
    obtain ⟨m, hm⟩ := h.ascends_of_next hg hs hn (.up hup (.here p))
    cases m with
    | zero =>
      cases hm
      exact .inl ⟨k + 1, hk.trans (.up hup (.here _))⟩
    | succ m => exact .inr ⟨s, by simp, p, k, m, hk, hup, hm⟩
  · obtain ⟨m', hm'⟩ := h.ascends_of_next hg hs hn hm
    cases m' with
    | zero =>
      cases hm'
      exact .inl ⟨k + 1, hk.trans (.up hup (.here _))⟩
    | succ m' => exact .inr ⟨b, by simp [hb], a, k, m', hk, hup, hm'⟩

/-- Along a chain of moves each step is or flanks an ancestor of the target, if the first
one does. -/
theorem DepthFirst.flanks_of_chain (h : g.DepthFirst) (hg : g.Sound) {target : Nat}
    (earlier : List Step) {met rest later : List Step} {x : Step}
    (hs : g.step? s.index = some s) (hf : g.Flanks target met s)
    (hchain : (s :: rest).IsChain g.Moves) (hsplit : s :: rest = earlier ++ x :: later) :
    g.Flanks target (met ++ earlier) x := by
  induction earlier generalizing s met rest with
  | nil =>
    cases hsplit
    simpa using hf
  | cons u earlier ih =>
    obtain ⟨rfl, hrest⟩ := List.cons.inj hsplit
    cases rest with
    | nil => simp at hrest
    | cons t rest =>
      obtain ⟨⟨hn, -⟩, htail⟩ := List.isChain_cons_cons.mp hchain
      have := ih (hg.step?_of_next hn) (h.flanks_of_next hg hs hn hf) htail hrest
      simpa using this

/-- If all steps are shown, what a walk keeps is an ancestor of its start or the child of
one. -/
theorem DepthFirst.near_of_mem_noDeeper (h : g.DepthFirst) (hg : g.Sound)
    (hs : g.step? s.index = some s) (hshown : ∀ t ∈ g.steps, t.isShown = true) {x : Step}
    (hx : x ∈ noDeeper (g.walk s).steps) :
    (∃ k, g.Ascends s.index k x.index) ∨
      ∃ a k, g.Ascends s.index (k + 1) a ∧ g.Up x.index a ∧ x.index < s.index := by
  obtain ⟨earlier, later, hsplit, -, hdepth⟩ := mem_noDeeper_iff.mp hx
  have hwalk := hg.walk_isWalk hs
  have hgraph := hg.mem_walk hs
  obtain ⟨rest, hrest⟩ := List.head?_eq_some_iff.mp hwalk.starts
  have hself : g.Flanks s.index [] s := .inl ⟨0, .here _⟩
  have hflanks := h.flanks_of_chain hg earlier hs hself (hrest ▸ hwalk.moves) (hrest ▸ hsplit)
  rcases hflanks with hk | ⟨b, hb, a, k, m, hk, hup, hm⟩
  · exact .inl hk
  · have hb : b ∈ earlier := by simpa using hb
    have hbg := hgraph b (by simp [hsplit, hb])
    have hxg := hgraph x (by simp [hsplit])
    obtain ⟨v, hv, hbv⟩ := hg.below hbg (parent_of_up hbg hup)
    have hle := hdepth b hb (hshown b (List.mem_of_getElem? hbg))
    have hdx := hg.depth_ascends hm hxg hv
    obtain rfl : m = 0 := by omega
    cases hm with
    | up hupx ha =>
      cases ha
      have hlt : x.index < s.index := by
        cases earlier with
        | nil => cases hb
        | cons u earlier =>
          have hsorted := hwalk.sorted
          rw [hsplit] at hsorted
          obtain rfl : u = s := by simpa [hsplit] using hwalk.starts
          exact (List.pairwise_cons.mp hsorted).1 x (by simp)
      exact .inr ⟨a, k, hk.trans (.up hup (.here a)), hupx, hlt⟩

end

end StateGraph

namespace Run
open StateGraph

/-- A simple trace that explains a step by its ancestors, in the tree below `root`. -/
structure ExplainsInTree (r : Run) (number : Nat) (target : Step) (root : Nat) (t : Trace) :
    Prop where
  isRoot : r.graph.IsRoot root
  above : ∃ k, r.graph.Ascends target.index k root
  ancestors : ∀ k s, r.graph.Ascends target.index k s.index → r.graph.step? s.index = some s →
    s.isShown = true → ∃ e ∈ t, r.step e.state = .ok s
  sameTree : ∀ e ∈ t, ∃ s k, r.step e.state = .ok s ∧ r.graph.Ascends s.index k root
  ends : ∃ walk, r.graph.IsWalk target walk ∧ ∃ last ∈ walk.getLast?, last.index = root
  noNotices : r.traceNotices number = []
  nearby : (∀ s ∈ r.graph.steps, s.isShown = true) → ∀ e ∈ t, ∃ s, r.step e.state = .ok s ∧
    ((∃ k, r.graph.Ascends target.index k s.index) ∨
      ∃ a k, r.graph.Ascends target.index (k + 1) a ∧ r.graph.Up s.index a ∧
        s.index < target.index)

/-- In a depth-first log every client state is explained by its ancestors: the trace has
all of them that are shown, and the walk ends at their root. -/
theorem trace_depthFirst {records : List Record} (h : (ofRecords records).graph.DepthFirst)
    {number : Nat} (hnumber : number < (ofRecords records).shown.length) (dark : Bool) :
    ∃ target root t, (ofRecords records).step number = .ok target ∧
      (ofRecords records).trace number { mode := .simple, dark } = .ok t ∧
      (ofRecords records).ExplainsInTree number target root t := by
  obtain ⟨target, htarget⟩ := step_of_lt hnumber
  obtain ⟨hstep, -⟩ := step_eq_ok_iff.mp htarget
  have hg : (ofRecords records).graph.Sound := ofRecords_sound records
  obtain ⟨root, habove, hroot⟩ := hg.reaches_root hstep
  obtain ⟨hresolve, hreport⟩ := simple_trace_steps htarget (Colour.accent dark)
  refine ⟨target, root, _, htarget, simple_trace_eq htarget dark, hroot, ⟨_, habove⟩,
    ?_, ?_, ?_, ?_, ?_⟩
  · intro k s hk hs hshown
    obtain ⟨earlier, u, later, hwalk, hu, hbelow⟩ := h.walk_meets hg hstep hk
    have hmem := hg.mem_walk hstep
    have hug := hmem u (by simp [hwalk])
    rw [hu, hs] at hug
    cases hug
    apply hreport
    refine mem_noDeeper_iff.mpr ⟨earlier, later, hwalk, hshown, ?_⟩
    intro x hx _
    obtain ⟨m, hm⟩ := hbelow x hx
    have hdepth := hg.depth_ascends hm (hmem x (by simp [hwalk, hx])) hs
    omega
  · intro e he
    obtain ⟨s, hs, hok⟩ := hresolve e he
    obtain ⟨earlier, later, hwalk, -⟩ := mem_noDeeper_iff.mp hs
    obtain ⟨m, hm⟩ := h.root_of_walk hg hstep habove hroot s (by simp [hwalk])
    exact ⟨s, m, hok, hm⟩
  · have hwalk := hg.walk_isWalk hstep
    obtain ⟨rest, hrest⟩ := List.head?_eq_some_iff.mp hwalk.starts
    refine ⟨_, hwalk, _, List.getLast?_eq_some_getLast (by simp [hrest]), ?_⟩
    exact h.walk_ends_at_root hg hstep habove hroot _ (List.getLast?_eq_some_getLast _)
  · simp only [traceNotices, htarget, Walk.notices, h.walk_unblocked hg hstep]
  · intro hshown e he
    obtain ⟨s, hs, hok⟩ := hresolve e he
    exact ⟨s, hok, h.near_of_mem_noDeeper hg hstep hshown hs⟩

/-- A branch at index 1 with two ways below it, of which the first one has a hidden step. -/
def twoWaysLog : List Record :=
  [Record.shown (.new 0 none), Record.branch (Record.shown (.new 0 (some 0))),
    Record.shown (.new 0 (some 1)), .new 0 (some 2), Record.shown (.new 0 (some 1)),
    Record.shown (.new 0 (some 4))]

theorem twoWaysLog_depthFirst : (ofRecords twoWaysLog).graph.DepthFirst := by
  have hparents : (ofRecords twoWaysLog).graph.steps.map (·.parent) =
      [none, some 0, some 1, some 2, some 1, some 4] := by decide
  intro i p h
  rw [up_iff, hparents] at h
  match i with
  | 0 => cases h
  | 1 => cases h; exact ⟨0, 0, rfl, .here 0⟩
  | 2 => cases h; exact ⟨1, 0, rfl, .here 1⟩
  | 3 => cases h; exact ⟨2, 0, rfl, .here 2⟩
  | 4 =>
    have hup : ∀ i p, [none, some 0, some 1, some 2, some 1, some 4][i]? = some (some p) →
        (ofRecords twoWaysLog).graph.Up i p := fun i p hi => up_iff.mpr (hparents ▸ hi)
    cases h
    exact ⟨3, 2, rfl, .up (hup 3 2 rfl) (.up (hup 2 1 rfl) (.here 1))⟩
  | 5 => cases h; exact ⟨4, 0, rfl, .here 4⟩
  | i + 6 => cases h

theorem trace_depthFirst_two_ways :
    (ofRecords twoWaysLog).graph.DepthFirst ∧ 4 < (ofRecords twoWaysLog).shown.length ∧
      ∃ target root t, (ofRecords twoWaysLog).step 4 = .ok target ∧
        (ofRecords twoWaysLog).trace 4 { mode := .simple, dark := false } = .ok t ∧
        (ofRecords twoWaysLog).ExplainsInTree 4 target root t :=
  ⟨twoWaysLog_depthFirst, by decide, trace_depthFirst twoWaysLog_depthFirst (by decide) false⟩

end Run

end ProofStepper
