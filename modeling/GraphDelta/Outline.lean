/-
**Outlines.**

An outline shows a comparison as an indented list below a chosen root.  Every changed object is marked
once: as removed or as added, or, if only properties change, as edited; a moved object counts as
added.  A removed object hangs where it was in the old snapshot and an added one where it is in the
new; an edited one where it was, if it was there.  The objects on the way up to the root that do not
change are filled in.  Changed objects that do not lead to the root are left out.

Main definitions:

* `Outline.Status`, `Outline.Entry`, `Outline.Detail` — the lines of an outline;
* `Outline.marks` — which objects change, and how;
* `Outline.Sketch` — marks and links while the outline is made: `Sketch.link` records the way from an
  object up to the root, and `Sketch.fill` marks the objects on it that do not change;
* `Outline.Sketch.rows` — the marked objects below the root, parents first;
* `Comparison.outline` — **the outline of a comparison**;
* `Outline.render` — an outline as text.
-/
import GraphDelta.Comparison

set_option autoImplicit false

namespace GraphDelta

namespace Outline

/-! ### Lines -/

/-- How an object changes. -/
inductive Status where
  /-- Not at all; it is shown for what is below it. -/
  | same
  | removed
  /-- It is only in the new snapshot, or at another place there. -/
  | added
  | edited
deriving DecidableEq, Inhabited

def Status.sign : Status → String
  | .same => " "
  | .removed => "-"
  | .added => "+"
  | .edited => "~"

/-- The edit of a property, as text. -/
structure Detail where
  name : String
  before : String
  after : String
deriving DecidableEq

def Detail.ofEdit (p : Property) : Detail :=
  ⟨p.name, p.before.display p.type, p.after.display p.type⟩

/-- An object in an outline. -/
structure Entry where
  id : Ident
  status : Status
  typeName : String
  title : Option String
  /-- How many objects stand between it and the root. -/
  depth : Nat
  details : List Detail
deriving DecidableEq

/-! ### Text -/

def Detail.line (d : Detail) : String := d.name ++ ": " ++ d.before ++ " -> " ++ d.after

/-- The line of an entry, without indentation. -/
def Entry.line (e : Entry) : String :=
  e.status.sign ++ " " ++ e.typeName ++
    match e.title with
    | some title => " " ++ title
    | none => " [" ++ e.id.text ++ "]"

/-- An entry as text: its line, and one for each detail, each indented by its depth. -/
def Entry.render (e : Entry) : String :=
  let indent := String.ofList (List.replicate (2 * e.depth) ' ')
  String.join <| (indent ++ e.line ++ "\n") ::
    e.details.map fun d => indent ++ "    " ++ d.line ++ "\n"

def render (entries : List Entry) : String := String.join (entries.map Entry.render)

/-! ### Marks -/

/-- The objects that change, each once: the removed ones that are not added again, the added ones, and
the others with edits. -/
def marks (d : Delta) : List (Ident × Status) :=
  let removed := (d.removals.map Node.id).filter fun id => !d.adds id
  let added := d.additions.map Node.id
  let edited := (distinct (d.edits.map Property.owner)).filter fun id =>
    !removed.contains id && !added.contains id
  removed.map (·, .removed) ++ added.map (·, .added) ++ edited.map (·, .edited)

/-- The objects among which a marked object has its place. -/
def home (c : Comparison) (id : Ident) : Status → NodeMap
  | .removed | .same => c.old.nodes
  | .added => c.new.nodes
  | .edited => if c.old.nodes.contains id then c.old.nodes else c.new.nodes

/-! ### Links and marks -/

/-- The marks of objects, and the links from objects to the ones they are shown under. -/
structure Sketch where
  marks : Std.ExtTreeMap Ident Status
  links : Std.ExtTreeMap Ident Ident

namespace Sketch

/-- Links `id` and what is above it to their parents, up to the root or to the first object that is
linked already.  The number bounds the steps. -/
def linkUp (m : NodeMap) (root : Ident) : Nat → Ident → Sketch → Sketch
  | 0, _, s => s
  | fuel + 1, id, s =>
    if id = root ∨ id ∈ s.links then s
    else
      match m.parent? id with
      | none => s
      | some p => linkUp m root fuel p { s with links := s.links.insert id p }

/-- Marks an object and links it to its parent, whatever it was linked to before, and what is above
it.  Every step up links another object of the map. -/
def link (c : Comparison) (root : Ident) (s : Sketch) (mark : Ident × Status) : Sketch :=
  let (id, status) := mark
  let s := { s with marks := s.marks.insert id status }
  let m := home c id status
  if id = root then s
  else
    match m.parent? id with
    | none => s
    | some p => linkUp m root (m.size + 1) p { s with links := s.links.insert id p }

/-- Marks `id` and what is above it as unchanged, up to the root or to the first object that is marked
already, and links them to their parents.  The number bounds the steps. -/
def fillUp (c : Comparison) (root : Ident) : Nat → Ident → Sketch → Sketch
  | 0, _, s => s
  | fuel + 1, id, s =>
    if id = root ∨ id ∈ s.marks then s
    else
      match c.node? id with
      | none => s
      | some n =>
        let s := { s with marks := s.marks.insert id .same }
        match n.parent with
        | none => s
        | some p => fillUp c root fuel p { s with links := s.links.insert id p }

/-- Fills in the objects between linked ones and the root.  Every step up marks another object of one
of the snapshots. -/
def fill (c : Comparison) (root : Ident) (s : Sketch) : Sketch :=
  s.links.keys.foldl (fun s id =>
    match s.links[id]? with
    | none => s
    | some p => fillUp c root (c.old.nodes.size + c.new.nodes.size + 1) p s) s

/-- The sketch of a comparison: every changed object but the root, and what stands between them and
the root. -/
def ofMarks (c : Comparison) (root : Ident) (marks : List (Ident × Status)) : Sketch :=
  let s := marks.foldl (link c root) ⟨∅, ∅⟩
  fill c root { s with marks := s.marks.erase root }

/-! ### Rows -/

/-- The place of an object among those shown under the same one: in the new snapshot if it is there. -/
def place (c : Comparison) (id : Ident) : Int32 :=
  match c.new.nodes[id]?.or c.old.nodes[id]? with
  | some n => n.index
  | none => Int32.maxValue

/-- The marked objects that are linked to `id`, by place and then by identifier. -/
def children (c : Comparison) (s : Sketch) (id : Ident) : List Ident :=
  stableSort (fun a b => decide (place c a ≤ place c b))
    (s.marks.keys.filter fun a => s.links[a]? == some id)

/-- The object at the given depth and what is linked to it, to the given height, each object followed
by what is linked to it. -/
def preorder (c : Comparison) (s : Sketch) : Nat → Nat → Ident → List (Ident × Nat)
  | 0, _, _ => []
  | height + 1, depth, id =>
    (id, depth) :: (s.children c id).flatMap (preorder c s height (depth + 1))

/-- The marked objects below the root, with their depths.  No branch is higher than the number of
marked objects. -/
def rows (c : Comparison) (root : Ident) (s : Sketch) : List (Ident × Nat) :=
  (s.children c root).flatMap (s.preorder c s.marks.size 0)

end Sketch

/-! ### Entries -/

/-- The name under which a marked object is shown: in the snapshot where it has its place. -/
def title? (c : Comparison) (id : Ident) : Status → Option String
  | .removed | .edited => c.old.title? id
  | .added => c.new.title? id
  | .same => (c.old.title? id).or (c.new.title? id)

/-- The edits of an object that are shown; only an edited object shows any. -/
def details (c : Comparison) (shows : String → String → Bool) (id : Ident) (status : Status) :
    List Detail :=
  match status, c.node? id with
  | .edited, some n =>
    (c.delta.edits.filter fun p => p.owner == id && shows n.typeTag p.name).map Detail.ofEdit
  | _, _ => []

/-- The line of a marked object. -/
def entry (c : Comparison) (shows : String → String → Bool) (s : Sketch) (row : Ident × Nat) :
    Entry :=
  let (id, depth) := row
  let status := s.marks[id]?.getD .same
  { id, status, depth
    typeName := (c.node? id).elim "" Node.simpleType
    title := title? c id status
    details := details c shows id status }

end Outline

/-- The outline of a comparison below `root`; `shows` selects, by type tag and name, the edits that
are shown.  It fails where an edit speaks of an object that is in neither snapshot. -/
def Comparison.outline (c : Comparison) (root : Ident) (shows : String → String → Bool) :
    Except Fault (List Outline.Entry) := do
  let marks := Outline.marks (← c.delta?)
  let _ ← marks.mapM fun (id, _) => c.typeName id
  let s := Outline.Sketch.ofMarks c root marks
  return (s.rows c root).map (Outline.entry c shows s)

end GraphDelta
