import ProofStepper.Disk.Path
import ProofStepper.Heap.View

/-!
# Heap pages

The HTML page of a view, with a text about the whole run below the panels and a link to
the source. Texts are put in as they are, but for line breaks and tabs in free texts.
-/

namespace ProofStepper.Heap

def inlineChar (c : Char) : List Char :=
  if c = '\n' then "<br />\n    ".toList
  else if c = '\t' then "&nbsp;&nbsp;&nbsp;&nbsp;".toList
  else [c]

/-- A free text for the page: its lines are broken and its tabs made of hard blanks. -/
def inlineHtml (text : String) : String := String.ofList (text.toList.flatMap inlineChar)

/-- Where the image of the snapshot in a slot lies. -/
def imagePath (dir : String) (slot : Nat) : String := Path.join dir s!"heap_{slot}.svg"

namespace Page

def heading (p : Panel) : String :=
  s!"<h1 style=\"color:{p.label.colour}\">{p.label.title}</h1>"

def conditionRow (c : Condition) : String :=
  if c.isNew then s!"     <tr><td><b>{c.text}</b></td></tr>\n"
  else s!"     <tr><td>{c.text}</td></tr>\n"

def conditionTable (conditions : List Condition) : String :=
  if conditions.isEmpty then "<h3>No path condition</h3>"
  else
    "<h3>Path condition</h3>\n    <table border=\"solid\">"
      ++ String.join (conditions.map conditionRow) ++ "\n    </table>"

def panel (dir : String) (p : Panel) : String :=
  s!"\n    <h2>file: {p.fileName}<br />{p.methodType}: {p.methodName}</h2>"
    ++ s!"\n    <h3>state {p.state}<br />position: {p.position.display}</h3>"
    ++ s!"\n    <img src=\"{imagePath dir p.slot}\"></img><br />\n    "
    ++ conditionTable p.conditions
    ++ s!"\n    <p>{inlineHtml p.description}</p><br />"

def body (dir : String) : View → String
  | .empty => " <p>No graph to show</p>"
  | .single p => " " ++ heading p ++ panel dir p
  | .comparison newer older =>
    " <table>\n  <tr><td>\n"
      ++ s!"   {heading newer}\n   {panel dir newer}\n"
      ++ "  </td><td>\n"
      ++ s!"   {heading older}\n   {panel dir older}\n"
      ++ "  </td></tr>\n </table>"

def head : String :=
  "<head>\n<style>\n table td, table td * \x7b\n  vertical-align: top;\n \x7d\n</style>\n</head>\n"

/-- Whether a build can display the position of every panel, as a page does. -/
def isDisplayed (b : Build) (view : View) : Bool :=
  view.panels.all fun p => (p.position.display? b).isSome

/-- The whole page. -/
def render (dir : String) (view : View) (info source : String) : String :=
  head ++ "<body>\n" ++ body dir view
    ++ s!"\n <p>{inlineHtml info}</p>\n <a href='{source}'>view source</a>\n</body>"

end Page

end ProofStepper.Heap
