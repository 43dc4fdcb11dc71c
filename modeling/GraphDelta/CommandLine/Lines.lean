/-
**Lines for a reader.**

Differences, outlines and the calls of a replay as lines of text, with colours where styles are on.

Main definitions:

* `Delta.lines` — a line for each change, in the order in which the changes are made;
* `Delta.summary` — the numbers of changes;
* `Outline.Entry.paragraph` — an entry of an outline;
* `Call.styledLine` — a call.
-/
import GraphDelta.CommandLine.Style
import GraphDelta.Outline
import GraphDelta.Replay
import GraphDelta.Text.Blank

set_option autoImplicit false

namespace GraphDelta

open CommandLine (Style)

/-- An optional parent as it is shown. -/
def Ident.labelOf : Option Ident → String
  | some a => a.text
  | none => "<none>"

/-! ### Differences -/

def Node.removalLine (n : Node) : String :=
  "- " ++ n.simpleType ++ " " ++ n.id.text ++ " (from " ++ Ident.labelOf n.parent ++ ")"

def Node.additionLine (n : Node) : String :=
  "+ " ++ n.simpleType ++ " " ++ n.id.text ++ " (under " ++ Ident.labelOf n.parent ++ ", index " ++
    toString n.index.toInt ++ ")"

def Property.editLine (p : Property) : String :=
  "~ " ++ p.owner.text ++ "." ++ p.name ++ ": " ++ p.before.display p.type ++ " -> " ++
    p.after.display p.type

namespace Delta

/-- A line for each change: the removals, the additions in the given order, and the edits. -/
def lines (d : Delta) (styled : Bool) (additions : List Node) : List String :=
  d.removals.map (fun n => (Style.coloured .red).paint styled n.removalLine) ++
    additions.map (fun n => (Style.coloured .green).paint styled n.additionLine) ++
    d.edits.map fun p => (Style.coloured .yellow).paint styled p.editLine

def summary (d : Delta) (styled : Bool) : String :=
  (Style.coloured .red).paint styled (toString d.removals.length) ++ " removed, " ++
    (Style.coloured .green).paint styled (toString d.additions.length) ++ " added, " ++
    (Style.coloured .yellow).paint styled (toString d.edits.length) ++ " property changes"

end Delta

/-! ### Outlines -/

namespace Outline

/-- The style of a status; what does not change has none. -/
def Status.style? : Status → Option Style
  | .same => none
  | .removed => some (.coloured .red)
  | .added => some (.coloured .green)
  | .edited => some (.coloured .yellow)

/-- An entry as text, without blanks at its end. -/
def Entry.paragraph (e : Entry) (styled : Bool) : String :=
  let text := Text.trimEnd e.render
  match e.status.style? with
  | some s => s.paint styled text
  | none => text

end Outline

/-! ### Calls -/

def Call.styledLine (styled : Bool) : Call → String
  | .begin => Style.bold.paint styled "begin"
  | .commit => Style.bold.paint styled "commit"
  | .rollback => (Style.boldColoured .red).paint styled "rollback"
  | .add parent typeTag id index =>
    "  " ++ (Style.coloured .green).paint styled "add" ++ " " ++ typeTag ++ " " ++ id.text ++
      " under " ++ Ident.labelOf parent ++ " at " ++ toString index.toInt
  | .remove parent id =>
    "  " ++ (Style.coloured .red).paint styled "remove" ++ " " ++ id.text ++ " from " ++
      Ident.labelOf parent
  | .set id name type before after =>
    "  " ++ (Style.coloured .yellow).paint styled "set" ++ " " ++ id.text ++ "." ++ name ++ " = " ++
      after.display type ++
      match before with
      | some v => " (was " ++ v.display type ++ ")"
      | none => ""

end GraphDelta
