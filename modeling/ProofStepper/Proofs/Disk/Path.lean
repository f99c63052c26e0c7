import ProofStepper.Disk.Basic

/-!
# A name within a directory

Whether a directory is written with a slash at its end or not, the path of a plain name
in it ends in that name, and the names before it are those of the directory.
-/
namespace ProofStepper

namespace Path

theorem pieces_ne_nil (cs : List Char) : pieces cs ≠ [] := by
  cases cs with
  | nil => simp [pieces]
  | cons c rest =>
    rw [pieces]
    split
    · simp
    · split <;> simp

theorem pieces_of_plain {cs : List Char} (h : '/' ∉ cs) : pieces cs = [cs] := by
  induction cs with
  | nil => rfl
  | cons c rest ih =>
    simp only [List.mem_cons, not_or] at h
    rw [pieces, ih h.2]
    simp [Ne.symm h.1]

theorem pieces_append_slash (cs ds : List Char) :
    pieces (cs ++ '/' :: ds) = pieces cs ++ pieces ds := by
  have hslash : pieces ('/' :: ds) = [] :: pieces ds := by
    obtain ⟨piece, later, h⟩ := List.exists_cons_of_ne_nil (pieces_ne_nil ds)
    simp [pieces, h]
  induction cs with
  | nil => simpa [pieces] using hslash
  | cons c rest ih =>
    obtain ⟨piece, later, h⟩ := List.exists_cons_of_ne_nil (pieces_ne_nil rest)
    simp only [List.cons_append, pieces, ih, h]
    split <;> rfl

/-- The names on a path as they are followed, dots included. -/
def steps (path : String) : List String :=
  ((pieces path.toList).filter (· ≠ [])).map String.ofList

/-- A name that can only be that of an entry. -/
structure Plain (name : String) : Prop where
  nonempty : name ≠ ""
  slash : '/' ∉ name.toList
  dot : name ≠ "."
  dots : name ≠ ".."

theorem join_cases (dir name : String) :
    (join dir name).toList = dir.toList ++ name.toList ∧
        (dir.toList = [] ∨ ∃ cs, dir.toList = cs ++ ['/']) ∨
      (join dir name).toList = dir.toList ++ '/' :: name.toList ∧ dir.toList ≠ [] := by
  unfold join
  split
  · rename_i h
    refine .inl ⟨String.toList_append, ?_⟩
    simp only [Bool.or_eq_true, String.isEmpty_iff, beq_iff_eq] at h
    rcases h with rfl | h
    · exact .inl rfl
    · exact .inr (List.getLast?_eq_some_iff.mp h)
  · rename_i h
    refine .inr ⟨by simp, ?_⟩
    simp only [Bool.or_eq_true, String.isEmpty_iff, not_or] at h
    simpa using h.1

theorem steps_join (dir : String) {name : String} (h : Plain name) :
    steps (join dir name) = steps dir ++ [name] := by
  have hname : pieces name.toList = [name.toList] := pieces_of_plain h.slash
  have hne : name.toList ≠ [] := by simpa using h.nonempty
  unfold steps
  rcases join_cases dir name with ⟨hj, hd | ⟨cs, hd⟩⟩ | ⟨hj, -⟩
  · simp [hj, hd, hname, hne, pieces]
  · simp [hj, hd, pieces_append_slash, hname, hne, pieces]
  · simp [hj, pieces_append_slash, hname, hne]

theorem isAbsolute_join (dir : String) {name : String} (h : Plain name) :
    isAbsolute (join dir name) = isAbsolute dir := by
  have hne : name.toList ≠ [] := by simpa using h.nonempty
  obtain ⟨c, rest, hname⟩ := List.exists_cons_of_ne_nil hne
  have hc : c ≠ '/' := by
    rintro rfl
    exact h.slash (by simp [hname])
  unfold isAbsolute
  rcases join_cases dir name with ⟨hj, hd | ⟨cs, hd⟩⟩ | ⟨hj, hd⟩
  · simp [hj, hd, hname, hc]
  · cases cs <;> simp [hj, hd]
  · obtain ⟨d, ds, hds⟩ := List.exists_cons_of_ne_nil hd
    simp [hj, hds]

theorem getLast?_join (dir : String) {name : String} (h : Plain name) :
    ((join dir name).toList.getLast? == some '/') = false := by
  have hne : name.toList ≠ [] := by simpa using h.nonempty
  obtain ⟨init, last, hname⟩ := List.eq_nil_or_concat name.toList |>.resolve_left hne
  have hlast : last ≠ '/' := by
    rintro rfl
    exact h.slash (by simp [hname])
  rcases join_cases dir name with ⟨hj, -⟩ | ⟨hj, -⟩
  · simp [hj, hname, hlast]
  · simp [hj, hname, hlast, List.getLast?_cons]

end Path

namespace Disk

/-- The directory that a path leads to, if all of its names are directories. -/
def locate (d : Disk) (dir : String) : Except DiskFault Location :=
  d.enterAll (if Path.isAbsolute dir then [] else d.cwd) (Path.steps dir)

/-- A plain name within a directory leads to an entry of that directory. -/
theorem goal_join (d : Disk) (dir : String) {name : String} (h : Path.Plain name) :
    d.goal (Path.join dir name) =
      (d.locate dir).map fun here => .entry (here ++ [name]) false := by
  have hsteps := Path.steps_join dir h
  unfold Path.steps at hsteps
  simp only [goal, hsteps, List.getLast?_concat, List.dropLast_concat, Path.isAbsolute_join dir h,
    Path.getLast?_join dir h, h.dot, h.dots, if_false, locate, Path.steps]
  split <;> rename_i he <;> rw [he] <;> rfl

end Disk

end ProofStepper
