/-!
# Paths

A path is a text of names between slashes. Empty names and single dots say nothing, but
for a dot at the start of a relative path. Two dots are kept: what they mean depends on
the disk.
-/

namespace ProofStepper.Path

/-- The pieces of a text between its slashes. -/
def pieces : List Char → List (List Char)
  | [] => [[]]
  | c :: rest =>
    match pieces rest with
    | [] => [[c]]
    | piece :: later => if c = '/' then [] :: piece :: later else (c :: piece) :: later

def isAbsolute (path : String) : Bool := path.toList.head? == some '/'

/-- The names in a path, without those that say nothing. -/
def names (path : String) : List String :=
  ((pieces path.toList).filter fun p => p ≠ [] ∧ p ≠ ['.']).map String.ofList

/-- The names in a path with a dot at its start, if a relative path has one. -/
def components (path : String) : List String :=
  match pieces path.toList with
  | ['.'] :: _ => "." :: names path
  | _ => names path

def ofNames (absolute : Bool) (names : List String) : String :=
  (if absolute then "/" else "") ++ String.intercalate "/" names

/-- The paths that lie around a path, the nearest first. -/
def parents (path : String) : List String :=
  let absolute := isAbsolute path
  let all := components path
  (List.range all.length).reverse.map fun n => ofNames absolute (all.take n)

/-- A name within a directory. -/
def join (dir name : String) : String :=
  if dir.isEmpty || dir.toList.getLast? == some '/' then dir ++ name else dir ++ "/" ++ name

/-- A path seen from the root, for the directory in which relative paths start. Two
dots stay as they are, and so does a slash at the end. -/
def absolute (cwd : List String) (path : String) : String :=
  let start := if isAbsolute path then [] else cwd
  let text := ofNames true (start ++ names path)
  if path.toList.getLast? == some '/' ∧ text ≠ "/" then text ++ "/" else text

end ProofStepper.Path
