import ProofStepper.Proofs.Graph.Cycles
import ProofStepper.Proofs.Graph.Forest
import ProofStepper.Run

/-!
# What the repair of recorded parents drops

A climb that finds its own path again has come to a cycle that was whole until then, and
it cuts the cycle at the step where it came to it. A cycle is whole as long as no visited
step leads into it: so the cut is made for the smallest step that does, and it is the only
one that the cycle gets.
-/
namespace ProofStepper.Graph

variable {parents depths : List (Option Nat)}

theorem Linked.mono {later : List (Option Nat)} {chain : List Nat} (h : Linked parents chain)
    (hp : ∀ i p, parentAt parents i = some p → parentAt later i = some p) : Linked later chain :=
  List.IsChain.imp (fun _ _ hl => hp _ _ hl) h

/-- The lowest step of a chain leads to every other one. -/
theorem Linked.leads {chain : List Nat} {start : Nat} (h : Linked parents chain)
    (hstart : chain.getLast? = some start) : ∀ x ∈ chain, Leads parents start x := by
  induction chain with
  | nil => simp
  | cons top rest ih =>
    cases rest with
    | nil =>
      obtain rfl : top = start := by simpa using hstart
      intro x hx
      obtain rfl : x = top := by simpa using hx
      exact .refl
    | cons next rest =>
      have hrest := ih h.tail (by simpa using hstart)
      have hlink : parentAt parents next = some top := h.rel_head? rfl
      simp only [List.forall_mem_cons]
      exact ⟨(hrest next (by simp)).tail hlink, by simpa using hrest⟩

/-- If the uppermost step of a chain has its parent in the chain, every step has. -/
theorem Linked.closed {loop : List Nat} {e : Nat} (h : Linked parents loop) (he : e ∈ loop)
    (htop : ∀ top ∈ loop.head?, parentAt parents top = some e) :
    ∀ x ∈ loop, ∃ p ∈ loop, parentAt parents x = some p := by
  have hlinks : ∀ top rest, Linked parents (top :: rest) →
      ∀ x ∈ rest, ∃ p ∈ top :: rest, parentAt parents x = some p := by
    intro top rest h
    induction rest generalizing top with
    | nil => simp
    | cons next rest ih =>
      have hlink : parentAt parents next = some top := h.rel_head? rfl
      simp only [List.forall_mem_cons]
      refine ⟨⟨top, by simp, hlink⟩, fun x hx => ?_⟩
      obtain ⟨p, hp, hpar⟩ := ih next h.tail x hx
      exact ⟨p, List.mem_cons_of_mem _ hp, hpar⟩
  cases loop with
  | nil => simp
  | cons top rest =>
    simp only [List.forall_mem_cons]
    exact ⟨⟨e, he, htop top rfl⟩, hlinks top rest h⟩

/-- A way up past steps off the cycles meets the cycle that its uppermost step meets. -/
theorem Linked.meets {chain : List Nat} {top start e : Nat} (h : Linked parents (top :: chain))
    (hstart : (top :: chain).getLast? = some start) (htop : MeetsCycle parents top e)
    (hoff : ∀ x ∈ chain, ¬ OnCycle parents x) : MeetsCycle parents start e := by
  induction chain generalizing top with
  | nil =>
    obtain rfl : top = start := by simpa using hstart
    exact htop
  | cons next rest ih =>
    have hlink : parentAt parents next = some top := h.rel_head? rfl
    exact ih h.tail (by simpa using hstart) (.up (hoff next (by simp)) hlink htop)
      (fun x hx => hoff x (by simp [hx]))

/-- How a climb came to its end: without a cut it stopped at a step of known depth or at a
root; a cut was made where the way up had come before. -/
structure Climb.Route (parents depths : List (Option Nat)) (start : Nat) (c : Climb) : Prop where
  reached : ∀ x ∈ c.chain, Leads parents start x
  stopped : c.cut = none →
    ∃ t, Leads parents start t ∧ ((depthAt depths t).isSome ∨ parentAt parents t = none)
  closed : ∀ e ∈ c.cut, ∃ lower upper, Fresh parents depths (lower ++ e :: upper) ∧
    (e :: upper).getLast? = some start ∧
    ∀ top ∈ (lower ++ [e]).head?, parentAt parents top = some e

theorem climb_route (hin : ∀ i p, parentAt parents i = some p → p < parents.length)
    {start : Nat} (fuel : Nat) (chain : List Nat) (step : Nat)
    (fresh : Fresh parents depths chain) (hstep : step < parents.length)
    (hlink : ∀ lower ∈ chain.head?, parentAt parents lower = some step)
    (hstart : (step :: chain).getLast? = some start)
    (hfuel : parents.length < fuel + chain.length) :
    (climb parents depths fuel chain step).Route parents depths start := by
  have hway : ∀ x ∈ step :: chain, Leads parents start x :=
    Linked.leads (fresh.linked.cons hlink) hstart
  induction fuel generalizing chain step with
  | zero =>
    have := fresh.length_le
    omega
  | succ fuel ih =>
    simp only [climb]
    split
    · rename_i depth hd
      exact ⟨fun x hx => hway x (by simp [hx]),
        fun _ => ⟨step, hway step (by simp), .inl (Option.isSome_of_mem hd)⟩, by simp⟩
    · rename_i hd
      split
      · rename_i hmem
        obtain ⟨lower, upper, rfl, hdrop⟩ := dropWhile_ne hmem
        rw [hdrop]
        refine ⟨fun x hx => hway x ?_, by simp, ?_⟩
        · exact List.mem_cons_of_mem _ (List.mem_append_right _ hx)
        · intro e he
          obtain rfl : step = e := by simpa using he
          refine ⟨lower, upper, fresh, by simpa [List.getLast?_cons] using hstart, ?_⟩
          intro top htop
          exact hlink top (by cases lower <;> simpa using htop)
      · rename_i hmem
        have hcons : Fresh parents depths (step :: chain) := fresh.cons hlink hmem hd hstep
        split
        · rename_i parent hp
          have hlink' : ∀ lower ∈ (step :: chain).head?, parentAt parents lower = some parent := by
            simpa using hp
          have hstart' : (parent :: step :: chain).getLast? = some start := by simpa using hstart
          apply ih (step :: chain) parent hcons (hin step parent hp) hlink' hstart'
          · simp only [List.length_cons]
            omega
          · exact Linked.leads (hcons.linked.cons hlink') hstart'
        · rename_i hp
          exact ⟨hway, fun _ => ⟨step, hway step (by simp), .inr hp⟩, by simp⟩

theorem known_of_settle {first c : Nat} {chain : List Nat}
    (h : (depthAt (settle first depths chain) c).isSome) :
    c ∈ chain ∨ (depthAt depths c).isSome := by
  induction chain generalizing first depths with
  | nil => exact .inr h
  | cons top rest ih =>
    rcases ih h with hc | hc
    · exact .inl (by simp [hc])
    · by_cases htop : top = c
      · exact .inl (by simp [htop])
      · rw [depthAt_set_ne htop] at hc
        exact .inr hc

theorem parentAt_repaired (c : Climb) (i : Nat) :
    parentAt (c.repaired parents) i = if c.cut = some i then none else parentAt parents i := by
  unfold Climb.repaired
  split
  · rename_i e he
    rw [he]
    by_cases hie : e = i
    · rw [if_pos (by rw [hie]), hie]
      simp only [parentAt, List.getElem?_set, if_true]
      split <;> rfl
    · rw [if_neg (by simpa using hie), parentAt_set_ne hie]
  · rename_i hnone
    rw [hnone, if_neg (by simp)]

namespace Survey

/-- What a survey has found out once all steps below `done` were visited. Each cut belongs
to the step from which it was made. -/
structure Exact (recorded : List (Option Nat)) (done : Nat) (s : Survey) : Prop where
  sound : s.Sound recorded
  uncut : ∀ i, i ∉ s.cuts → parentAt s.parents i = parentAt recorded i
  cutRoot : ∀ e ∈ s.cuts, parentAt s.parents e = none
  known : ∀ i < done, (depthAt s.depths i).isSome
  met : ∀ c, (depthAt s.depths c).isSome → ∃ i < done, Leads recorded i c
  entries : ∃ pairs : List (Nat × Nat), s.cuts = pairs.map (·.2) ∧
    pairs.Pairwise (fun a b => a.1 < b.1) ∧
    ∀ start e, (start, e) ∈ pairs ↔ start < done ∧ Entry recorded start e

variable {recorded : List (Option Nat)} {done : Nat} {s : Survey}

theorem start_exact (recorded : List (Option Nat)) : (start recorded).Exact recorded 0 := by
  have hnone : ∀ c, depthAt (start recorded).depths c = none := by
    intro c
    simp only [start, depthAt, List.getElem?_map]
    cases recorded[c]? <;> rfl
  refine ⟨start_sound recorded, fun _ _ => rfl, by simp [start], by simp, ?_, [], rfl, .nil,
    by simp⟩
  intro c hc
  rw [hnone] at hc
  cases hc

theorem Exact.entry_of_cut (h : s.Exact recorded done) {e : Nat} (he : e ∈ s.cuts) :
    ∃ start < done, Entry recorded start e := by
  obtain ⟨pairs, hcuts, -, hpairs⟩ := h.entries
  rw [hcuts, List.mem_map] at he
  obtain ⟨⟨start, e⟩, hmem, rfl⟩ := he
  exact ⟨start, (hpairs start e).mp hmem⟩

/-- The way up from a step of known depth goes on through steps of known depth, unless it
was cut. -/
theorem Exact.known_or_cut (h : s.Exact recorded done) {i e : Nat} (hl : Leads recorded i e)
    (hi : (depthAt s.depths i).isSome) :
    (depthAt s.depths e).isSome ∨ ∃ c ∈ s.cuts, Leads recorded c e := by
  induction hl using Relation.ReflTransGen.head_induction_on with
  | refl => exact .inl hi
  | head hp hl ih =>
    rename_i i p
    by_cases hc : i ∈ s.cuts
    · exact .inr ⟨i, hc, .head hp hl⟩
    · apply ih
      obtain ⟨d, hd⟩ := Option.isSome_iff_exists.mp hi
      have hagree := h.sound.agree i d hd
      rw [DepthOf, h.uncut i hc, show parentAt recorded i = some p from hp] at hagree
      obtain ⟨above, habove, -⟩ := hagree
      exact Option.isSome_of_mem habove

/-- A loop of the parents as they are is one of the recorded parents, and the way up from
it never leaves it. -/
theorem Sound.loop (h : s.Sound recorded) {loop : List Nat} {e : Nat}
    (hlinked : Linked s.parents loop) (hlast : loop.getLast? = some e)
    (htop : ∀ top ∈ loop.head?, parentAt s.parents top = some e) :
    OnCycle recorded e ∧
      ∀ x, Leads recorded e x → x ∈ loop ∧ ∃ p, parentAt s.parents x = some p := by
  have he := List.mem_of_getLast? hlast
  have hclosed := hlinked.closed he htop
  constructor
  · obtain ⟨top, rest, rfl⟩ := List.exists_cons_of_ne_nil (List.ne_nil_of_mem he)
    have hup := (hlinked.mono h.retained).leads hlast top (by simp)
    exact Relation.TransGen.tail' hup (h.retained top e (htop top rfl))
  · have hstay : ∀ x, Leads recorded e x → x ∈ loop := by
      intro x hx
      induction hx with
      | refl => exact he
      | tail _ hp ih =>
        obtain ⟨q, hq, hpar⟩ := hclosed _ ih
        exact names_unique (h.retained _ q hpar) hp ▸ hq
    intro x hx
    obtain ⟨p, -, hp⟩ := hclosed x (hstay x hx)
    exact ⟨hstay x hx, p, hp⟩

/-- A climb that closed has met a cycle for the first time, at its entry. -/
theorem Exact.entry_of_route (h : s.Exact recorded done) {c : Climb}
    (hc : c.Route s.parents s.depths done) {e : Nat} (he : e ∈ c.cut) :
    Entry recorded done e := by
  obtain ⟨lower, upper, hfresh, hstart, htop⟩ := hc.closed e he
  have hsplit : lower ++ e :: upper = (lower ++ [e]) ++ upper := by simp
  have hloop : Linked s.parents (lower ++ [e]) := by
    have := hfresh.linked
    rw [hsplit] at this
    exact this.left_of_append
  obtain ⟨hon, hstay⟩ := h.sound.loop hloop (by simp) htop
  have hchain : Linked recorded (e :: upper) :=
    Linked.mono hfresh.linked.right_of_append h.sound.retained
  refine ⟨hchain.meets hstart (.here hon) fun x hx hcycle => ?_, fun i hi => ?_⟩
  · have hxe := hon.leads_of_leads (hchain.leads hstart e (by simp))
      (hchain.leads hstart x (by simp [hx]))
    have hmem := (hstay x (hcycle.of_leads hxe).2).1
    have hdistinct := hfresh.distinct
    rw [hsplit] at hdistinct
    exact (List.nodup_append.mp hdistinct).2.2 x hmem x hx rfl
  · by_contra hlt
    rcases h.known_or_cut hi (h.known i (by omega)) with hknown | ⟨cut, hcut, hl⟩
    · rw [hfresh.unknown e (by simp)] at hknown
      cases hknown
    · obtain ⟨start, -, hentry⟩ := h.entry_of_cut hcut
      obtain ⟨p, hp⟩ := (hstay cut (hentry.meets.onCycle.of_leads hl).2).2
      rw [h.cutRoot cut hcut] at hp
      cases hp

/-- A climb from the smallest step that leads into a cycle closes there. -/
theorem Exact.route_of_entry (h : s.Exact recorded done) {c : Climb}
    (hc : c.Route s.parents s.depths done) {e : Nat} (he : Entry recorded done e) :
    c.cut = some e := by
  cases hcut : c.cut with
  | some e' =>
    have he' := h.entry_of_route hc hcut
    rw [he.meets.unique he'.meets]
  | none =>
    obtain ⟨t, ht, hstop⟩ := hc.stopped hcut
    have ht : Leads recorded done t := ht.mono h.sound.retained
    have hte := he.meets.onCycle.leads_of_leads he.meets.leads ht
    rcases hstop with hknown | hroot
    · obtain ⟨i, hi, hit⟩ := h.met t hknown
      have := he.least i (hit.trans hte)
      omega
    · by_cases hmem : t ∈ s.cuts
      · obtain ⟨start, hstart, ht'⟩ := h.entry_of_cut hmem
        have := (ht'.unique he hte).1
        omega
      · obtain ⟨p, hp⟩ := he.meets.onCycle.parent_of_leads hte
        rw [← h.uncut t hmem, hroot] at hp
        cases hp

/-- A visit cuts the cycle of which its step is the smallest one to lead there. -/
theorem Exact.visit (h : s.Exact recorded done)
    (hin : ∀ i p, parentAt recorded i = some p → p < recorded.length)
    (hdone : done < recorded.length) : (s.visit done).Exact recorded (done + 1) := by
  obtain ⟨hsound, hgrows, hknown⟩ := h.sound.visit hin hdone
  have hlen := h.sound.parents_length
  have hroute : (climb s.parents s.depths (s.parents.length + 1) [] done).Route
      s.parents s.depths done := by
    apply climb_route
    · intro i p hp
      exact hlen ▸ hin i p (h.sound.retained i p hp)
    · exact ⟨.nil, .nil, by simp, by simp⟩
    · exact hlen ▸ hdone
    · simp
    · rfl
    · simp
  rw [visit_eq] at hsound hgrows hknown ⊢
  generalize climb s.parents s.depths (s.parents.length + 1) [] done = c
    at hroute hsound hgrows hknown
  have hcut : ∀ e, c.cut = some e ↔ Entry recorded done e := fun e =>
    ⟨h.entry_of_route hroute, h.route_of_entry hroute⟩
  refine ⟨hsound, ?_, ?_, ?_, ?_, ?_⟩
  · intro i hi
    simp only [List.mem_append, Option.mem_toList, not_or] at hi
    rw [parentAt_repaired, if_neg hi.2]
    exact h.uncut i hi.1
  · intro e he
    simp only [List.mem_append, Option.mem_toList] at he
    rw [parentAt_repaired]
    split
    · rfl
    · exact h.cutRoot e (he.resolve_right ‹_›)
  · intro i hi
    rcases Nat.lt_succ_iff_lt_or_eq.mp hi with hi | rfl
    · obtain ⟨d, hd⟩ := Option.isSome_iff_exists.mp (h.known i hi)
      exact Option.isSome_of_mem (hgrows i d hd)
    · exact hknown
  · intro x hx
    rcases known_of_settle hx with hx | hx
    · exact ⟨done, by omega, (hroute.reached x hx).mono h.sound.retained⟩
    · obtain ⟨i, hi, hl⟩ := h.met x hx
      exact ⟨i, by omega, hl⟩
  · obtain ⟨pairs, hcuts, hsorted, hpairs⟩ := h.entries
    refine ⟨pairs ++ c.cut.toList.map (done, ·), by simp [hcuts, Function.comp_def], ?_, ?_⟩
    · refine List.pairwise_append.mpr ⟨hsorted, by cases c.cut <;> simp, ?_⟩
      rintro ⟨start, e⟩ hmem pair hpair
      obtain ⟨e', -, rfl⟩ := List.mem_map.mp hpair
      exact ((hpairs start e).mp hmem).1
    · intro start e
      rw [List.mem_append, hpairs, List.mem_map]
      simp only [Option.mem_toList, Prod.mk.injEq, hcut]
      constructor
      · rintro (⟨hlt, he⟩ | ⟨_, he, rfl, rfl⟩)
        · exact ⟨by omega, he⟩
        · exact ⟨by omega, he⟩
      · rintro ⟨hlt, he⟩
        rcases Nat.lt_succ_iff_lt_or_eq.mp hlt with hlt | rfl
        · exact .inl ⟨hlt, he⟩
        · exact .inr ⟨e, he, rfl, rfl⟩

theorem complete_exact (hin : ∀ i p, parentAt recorded i = some p → p < recorded.length) :
    (start recorded).complete.Exact recorded recorded.length := by
  have hrun : ∀ k ≤ recorded.length,
      ((List.range k).foldl Survey.visit (start recorded)).Exact recorded k := by
    intro k hk
    induction k with
    | zero => exact start_exact recorded
    | succ k ih =>
      rw [List.range_succ, List.foldl_append]
      exact (ih (by omega)).visit hin (by omega)
  exact hrun _ (Nat.le_refl _)

end Survey

/-- The parents that lie inside of a log. -/
def namedInside (recorded : List (Option Nat)) : List (Option Nat) :=
  recorded.map (inside recorded.length)

def outsideDrop (size : Nat) (parent : Option Nat) (step : Nat) : Option Defect :=
  (parent.filter fun p => size ≤ p).map (.outside step)

theorem outsiders_eq (size step : Nat) (recorded : List (Option Nat)) :
    outsiders size step recorded =
      (recorded.zipIdx step).filterMap fun e => outsideDrop size e.1 e.2 := by
  induction recorded generalizing step with
  | nil => rfl
  | cons parent rest ih =>
    rw [List.zipIdx_cons]
    cases parent with
    | none => simp [outsiders, outsideDrop, ih]
    | some p =>
      by_cases hp : p < size
      · simp [outsiders, outsideDrop, ih, hp]
      · simp [outsiders, outsideDrop, ih, hp, Nat.le_of_not_lt hp]

namespace Forest

theorem survey_exact (recorded : List (Option Nat)) :
    (Survey.start (namedInside recorded)).complete.Exact (namedInside recorded)
      recorded.length := by
  have hin : ∀ i p, parentAt (namedInside recorded) i = some p →
      p < (namedInside recorded).length := by
    intro i p hp
    rw [namedInside, parentAt_inside, inside_eq_some] at hp
    simpa [namedInside] using hp.2
  have hexact := Survey.complete_exact hin
  simpa [namedInside] using hexact

/-- The parent of an entry is dropped. -/
theorem parent_of_entry {recorded : List (Option Nat)} {start e : Nat}
    (h : Entry (namedInside recorded) start e) :
    parentAt (ofRecorded recorded).parents e = none := by
  have hexact := survey_exact recorded
  obtain ⟨pairs, hcuts, -, hpairs⟩ := hexact.entries
  apply hexact.cutRoot
  rw [hcuts, List.mem_map]
  have hlt : start < recorded.length := by simpa [namedInside] using h.start_lt
  exact ⟨(start, e), (hpairs start e).mpr ⟨hlt, h⟩, rfl⟩

/-- Every other step keeps its parent, if that lies inside of the log. -/
theorem parent_of_not_entry {recorded : List (Option Nat)} {i : Nat}
    (h : ∀ start, ¬ Entry (namedInside recorded) start i) :
    parentAt (ofRecorded recorded).parents i = parentAt (namedInside recorded) i := by
  have hexact := survey_exact recorded
  apply hexact.uncut
  intro hi
  obtain ⟨start, -, hentry⟩ := hexact.entry_of_cut hi
  exact h start hentry

theorem defects_eq (recorded : List (Option Nat)) :
    ∃ pairs : List (Nat × Nat), pairs.Pairwise (fun a b => a.1 < b.1) ∧
      (∀ start e, (start, e) ∈ pairs ↔ Entry (namedInside recorded) start e) ∧
      (ofRecorded recorded).defects =
        (recorded.zipIdx.filterMap fun e => outsideDrop recorded.length e.1 e.2) ++
          pairs.map fun a => .cycle a.2 := by
  obtain ⟨pairs, hcuts, hsorted, hpairs⟩ := (survey_exact recorded).entries
  refine ⟨pairs, hsorted, fun start e => ?_, ?_⟩
  · rw [hpairs, and_iff_right_iff_imp]
    intro h
    simpa [namedInside] using h.start_lt
  · rw [← outsiders_eq, ← Function.comp_def, ← List.map_map, ← hcuts]
    rfl

end Forest

end ProofStepper.Graph
