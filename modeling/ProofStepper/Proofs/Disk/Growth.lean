import ProofStepper.Proofs.Disk.Path

/-!
# What making and writing keep

Making a directory never takes anything away, and writing a file changes nothing but
that file. So a path that could be followed leads to the same place afterwards, and
making a directory that is there already changes nothing.
-/
namespace ProofStepper.Disk

theorem lookup_filter_append {l m : Location} {n : Node} (nodes : List (Location × Node)) :
    (nodes.filter (fun e => e.1 ≠ l) ++ [(l, n)]).lookup m =
      if m = l then some n else nodes.lookup m := by
  induction nodes with
  | nil =>
    simp only [List.filter_nil, List.nil_append, List.lookup_cons, List.lookup_nil]
    by_cases h : m = l
    · simp [h]
    · rw [beq_false_of_ne h, if_neg h]
  | cons e rest ih =>
    obtain ⟨k, node⟩ := e
    by_cases hk : k = l
    · rw [List.filter_cons_of_neg (by simpa using hk), ih]
      split
      · rfl
      · rename_i hm
        rw [List.lookup_cons, beq_false_of_ne (hk ▸ hm)]
    · rw [List.filter_cons_of_pos (by simpa using hk), List.cons_append]
      by_cases hm : m = k
      · rw [hm, List.lookup_cons_self, List.lookup_cons_self, if_neg hk]
      · rw [List.lookup_cons, List.lookup_cons, beq_false_of_ne hm]
        exact ih

theorem find?_put_self {d : Disk} {l : Location} (h : ¬ l.isPrefixOf d.cwd = true) (n : Node) :
    (d.put l n).find? l = some n := by
  unfold find? put
  rw [if_neg h, lookup_filter_append, if_pos rfl]

theorem find?_put_ne {d : Disk} {l m : Location} (h : m ≠ l) (n : Node) :
    (d.put l n).find? m = d.find? m := by
  unfold find? put
  simp only [lookup_filter_append, if_neg h]

theorem not_isPrefixOf_cwd {d : Disk} {l : Location} (h : d.find? l ≠ some .directory) :
    ¬ l.isPrefixOf d.cwd = true := by
  intro hp
  exact h (if_pos hp)

theorem exists?_of_read {d : Disk} {path : String} {content : Content}
    (h : d.read path = some content) : d.exists? path = true := by
  unfold read at h
  unfold exists?
  split at h
  · rename_i hg
    split at h
    · rename_i hf
      simp [hg, hf]
    · cases h
  · cases h

/-- The directories of a disk are directories of a later one. -/
structure Keeps (d later : Disk) : Prop where
  cwd : later.cwd = d.cwd
  directories : ∀ l, d.find? l = some .directory → later.find? l = some .directory

theorem keeps_put {d : Disk} {l : Location} (h : d.find? l ≠ some .directory) (n : Node) :
    d.Keeps (d.put l n) := by
  refine ⟨rfl, fun m hm => ?_⟩
  have hne : m ≠ l := by
    rintro rfl
    exact h hm
  rwa [find?_put_ne hne]

theorem enter_eq_ok_iff {d : Disk} {here there : Location} {name : String} :
    d.enter here name = .ok there ↔
      (name = "." ∧ there = here) ∨ (name = ".." ∧ there = here.dropLast) ∨
      (name ≠ "." ∧ name ≠ ".." ∧ there = here ++ [name] ∧ d.find? there = some .directory) := by
  unfold enter
  by_cases h₁ : name = "."
  · simp [h₁, eq_comm]
  by_cases h₂ : name = ".."
  · simp [h₂, eq_comm]
  simp only [h₁, h₂, if_false, false_and, false_or, not_false_eq_true, true_and, ne_eq]
  constructor
  · intro h
    split at h <;> cases h
    rename_i hf
    exact ⟨rfl, hf⟩
  · rintro ⟨rfl, hf⟩
    rw [hf]

theorem Keeps.enter {d later : Disk} (h : d.Keeps later) {here there : Location} {name : String}
    (he : d.enter here name = .ok there) : later.enter here name = .ok there := by
  rw [enter_eq_ok_iff] at he ⊢
  rcases he with he | he | ⟨h₁, h₂, he, hf⟩
  · exact .inl he
  · exact .inr (.inl he)
  · exact .inr (.inr ⟨h₁, h₂, he, h.directories _ hf⟩)

theorem enterAll_append (d : Disk) (here : Location) (xs ys : List String) :
    d.enterAll here (xs ++ ys) = (d.enterAll here xs).bind fun there => d.enterAll there ys := by
  induction xs generalizing here with
  | nil => rfl
  | cons x rest ih =>
    simp only [List.cons_append, enterAll]
    split
    · rfl
    · exact ih _

theorem Keeps.enterAll {d later : Disk} (h : d.Keeps later) {here there : Location}
    {names : List String} (he : d.enterAll here names = .ok there) :
    later.enterAll here names = .ok there := by
  induction names generalizing here with
  | nil => exact he
  | cons name rest ih =>
    simp only [Disk.enterAll] at he ⊢
    split at he
    · cases he
    · rename_i next hn
      rw [h.enter hn]
      exact ih he

theorem Keeps.locate {d later : Disk} (h : d.Keeps later) {dir : String} {here : Location}
    (hl : d.locate dir = .ok here) : later.locate dir = .ok here := by
  unfold Disk.locate at hl ⊢
  rw [h.cwd]
  exact h.enterAll hl

/-- All that a disk has is on a later one. -/
structure Grows (d later : Disk) : Prop where
  cwd : later.cwd = d.cwd
  found : ∀ l n, d.find? l = some n → later.find? l = some n

theorem Grows.refl (d : Disk) : d.Grows d := ⟨rfl, fun _ _ h => h⟩

theorem Grows.trans {a b c : Disk} (h : a.Grows b) (k : b.Grows c) : a.Grows c :=
  ⟨k.cwd.trans h.cwd, fun l n hl => k.found l n (h.found l n hl)⟩

theorem Grows.keeps {d later : Disk} (h : d.Grows later) : d.Keeps later :=
  ⟨h.cwd, fun l hl => h.found l _ hl⟩

theorem makeDirectory_grows {d later : Disk} {path : String}
    (h : d.makeDirectory path = .ok later) : d.Grows later := by
  unfold makeDirectory at h
  split at h
  · cases h
  · cases h
  · rename_i l _ _
    split at h
    · cases h
    · cases h
    · rename_i hnone _
      cases h
      refine ⟨rfl, fun m n hm => ?_⟩
      have hne : m ≠ l := by
        rintro rfl
        rw [hnone] at hm
        cases hm
      rwa [find?_put_ne hne]

theorem keepDirectory_grows (d : Disk) (path : String) : d.Grows (d.keepDirectory path).1 := by
  unfold keepDirectory
  split
  · rename_i h
    exact makeDirectory_grows h
  · exact Grows.refl d

theorem makeAll_grows (d : Disk) (paths : List String) : d.Grows (d.makeAll paths).1 := by
  induction paths with
  | nil => exact Grows.refl d
  | cons path around ih =>
    unfold makeAll
    split
    · exact Grows.refl d
    · split
      · split
        · rename_i h
          rwa [h] at ih
        · rename_i h
          rw [h] at ih
          exact ih.trans (keepDirectory_grows _ path)
      · exact keepDirectory_grows d path

theorem makeDirectories_grows (d : Disk) (path : String) : d.Grows (d.makeDirectories path).1 :=
  makeAll_grows d _

/-- Nothing is made at a path that leads to a directory. -/
theorem makeDirectory_of_locate {d : Disk} {dir : String} {here : Location} (hne : dir ≠ "")
    (h : d.locate dir = .ok here) :
    d.makeDirectory dir = .error .alreadyThere ∧ d.isDirectory dir = true := by
  unfold makeDirectory isDirectory
  unfold locate at h
  have hsteps : Path.steps dir = ((Path.pieces dir.toList).filter (· ≠ [])).map String.ofList := rfl
  simp only [goal, ← hsteps]
  rcases List.eq_nil_or_concat (Path.steps dir) with hs | ⟨init, last, hs⟩
  · simp [hs, hne]
  · rw [List.concat_eq_append] at hs
    rw [hs, enterAll_append] at h
    simp only [hs, List.getLast?_concat, List.dropLast_concat]
    cases hi : d.enterAll (if Path.isAbsolute dir then [] else d.cwd) init with
    | error e => simp [hi, Except.bind] at h
    | ok near =>
      have hlast : d.enter near last = .ok here := by
        simp only [hi, Except.bind, enterAll] at h
        split at h <;> cases h
        assumption
      rcases enter_eq_ok_iff.mp hlast with ⟨rfl, -⟩ | ⟨rfl, -⟩ | ⟨h₁, h₂, rfl, hf⟩
      · simp
      · simp
      · simp [h₁, h₂, hf]

/-- A path that leads to a directory is made as it is. -/
theorem makeDirectories_of_locate {d : Disk} {dir : String} {here : Location}
    (h : d.locate dir = .ok here) : d.makeDirectories dir = (d, .ok ()) := by
  unfold makeDirectories makeAll
  split
  · rfl
  · rename_i hne
    obtain ⟨hm, hd⟩ := makeDirectory_of_locate hne h
    simp [keepDirectory, hm, hd]

/-- Writing changes nothing or the one file that the path names. A refused write may leave
something else in it than what was to be written. -/
theorem writeFile_cases (d : Disk) (path : String) (content : Content) :
    (∃ e, d.writeFile path content = (d, .error e)) ∨
    ∃ l left outcome, d.goal path = .ok (.entry l false) ∧ d.find? l ≠ some .directory ∧
      d.writeFile path content = (d.put l (.file left), outcome) ∧
      (outcome = .ok () → left = content) := by
  unfold writeFile
  cases hg : d.goal path with
  | error e => exact .inl ⟨e, rfl⟩
  | ok goal =>
    rcases goal with l | ⟨l, slash⟩
    · exact .inl ⟨_, rfl⟩
    by_cases hf : d.find? l = some .directory
    · exact .inl ⟨.isDirectory, by simp only [hf]⟩
    cases slash with
    | true => exact .inl ⟨.isDirectory, by simp⟩
    | false =>
      cases hr : d.refusals.lookup l with
      | none => exact .inr ⟨l, content, .ok (), rfl, hf, by simp [hr], fun _ => rfl⟩
      | some refusal =>
        cases hl : refusal.left with
        | none => exact .inl ⟨refusal.cause, by simp [hr, refuse, hl]⟩
        | some left =>
          exact .inr ⟨l, left, .error refusal.cause, rfl, hf, by simp [hr, refuse, hl],
            fun h => nomatch h⟩

end ProofStepper.Disk
