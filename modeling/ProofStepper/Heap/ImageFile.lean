import ProofStepper.Disk.Basic
import ProofStepper.Failure
import ProofStepper.Heap.Page

/-!
# Images of heap chunks

An SVG image with a framed row for each heap chunk, one below the other. In the text of
a chunk the four characters that markup is made of are written as entities, so that no
chunk can pass for a piece of the image. The image of a snapshot is kept in a file that
is named for the slot of the snapshot.
-/

namespace ProofStepper.Heap

def escapedMarkup (c : Char) : List Char :=
  if c = '&' then "&amp;".toList
  else if c = '<' then "&lt;".toList
  else if c = '>' then "&gt;".toList
  else if c = '"' then "&quot;".toList
  else [c]

def escapeMarkup (s : String) : String := String.ofList (s.toList.flatMap escapedMarkup)

namespace Image

def width : Nat := 480

def rowHeight : Nat := 28

/-- An image without chunks still has the height of one row. -/
def height (chunks : Nat) : Nat := max chunks 1 * rowHeight + 8

/-- The upper edge of a row. -/
def top (row : Nat) : Nat := 4 + row * rowHeight

def opening (chunks : Nat) : String :=
  s!"<svg xmlns=\"http://www.w3.org/2000/svg\" width=\"{width}\" height=\"{height chunks}\" "
    ++ "font-family=\"monospace\" font-size=\"12\">\n"

def emptyRow : String := "  <text x=\"10\" y=\"20\">empty heap</text>\n"

def rowStart (row : Nat) : String :=
  s!"  <g id=\"chunk{row}\">\n"
    ++ s!"    <rect x=\"4\" y=\"{top row}\" width=\"{width - 8}\" height=\"{rowHeight - 4}\" "
    ++ "fill=\"none\" stroke=\"black\"/>\n"
    ++ s!"    <text x=\"10\" y=\"{top row + 16}\">"

def rowEnd : String := "</text>\n  </g>\n"

def rowText (row : Nat) (chunk : String) : String := rowStart row ++ escapeMarkup chunk ++ rowEnd

/-- The rows from number `row` on. -/
def rows (row : Nat) : List String → String
  | [] => ""
  | chunk :: rest => rowText row chunk ++ rows (row + 1) rest

def closing : String := "</svg>\n"

def ofChunks (chunks : List String) : String :=
  opening chunks.length ++ (if chunks.isEmpty then emptyRow else rows 0 chunks) ++ closing

end Image

/-- Writes the image for a slot, and makes the directory first if there is none. -/
def writeImage (disk : Disk) (dir : String) (slot : Nat) (image : String) :
    Disk × Except Failure Unit :=
  let path := imagePath dir slot
  match disk.makeDirectories dir with
  | (disk, .error e) => (disk, .error (.heapImage path e.message))
  | (disk, .ok ()) =>
    match disk.writeFile path (.text image) with
    | (disk, .error e) => (disk, .error (.heapImage path e.message))
    | (disk, .ok ()) => (disk, .ok ())

end ProofStepper.Heap
