/-
**Differences between snapshots.**

A `Delta` turns one snapshot into another: it lists the objects to remove, the objects to add and the
property edits.  An object whose record changed is *moved*: it is removed and added again, and with it
everything that hangs below it in the new snapshot is *rebuilt*.  Removing an object takes everything
below it along, so of the removed and moved objects only the topmost are listed for removal.

Main definitions:

* `NodeMap.isFresh`, `NodeMap.isGone`, `NodeMap.isMoved` — how an object differs;
* `Delta.additionIds`, `Delta.rebuiltIds` — the objects to add, and those whose properties are all
  set again;
* `Delta.topmost?` — drops a removal that another one covers;
* `Delta.edit?` — the edit of one property;
* `Delta.between` — **the difference between two catalogs**;
* `Delta.omitRoot?` — leaves out the top object of what is added.
-/
import GraphDelta.Forest

set_option autoImplicit false

namespace GraphDelta

/-! ### How an object differs -/

namespace NodeMap

def isFresh (old new : NodeMap) (id : Ident) : Bool := !old.contains id && new.contains id

def isGone (old new : NodeMap) (id : Ident) : Bool := old.contains id && !new.contains id

/-- Whether the object is in both maps with different records. -/
def isMoved (old new : NodeMap) (id : Ident) : Bool :=
  match old[id]?, new[id]? with
  | some a, some b => a != b
  | _, _ => false

/-- The identifiers in either map, ascending. -/
def allIds (old new : NodeMap) : List Ident := (old ∪ new).keys

end NodeMap

/-- The change from one snapshot to another. -/
structure Delta where
  /-- The objects to add.  A moved object is added again, with everything below it. -/
  additions : List Node
  /-- The objects to remove; what hangs below them goes with them. -/
  removals : List Node
  edits : List Property
deriving DecidableEq, Inhabited

namespace Delta

def empty : Delta := ⟨[], [], []⟩

def isEmpty (d : Delta) : Bool := d.additions.isEmpty && d.removals.isEmpty && d.edits.isEmpty

def adds (d : Delta) (id : Ident) : Bool := d.additions.any (·.id == id)

/-! ### Objects to add -/

/-- The moved objects, ascending. -/
def movedIds (old new : NodeMap) : List Ident := (old.allIds new).filter (old.isMoved new)

/-- The forest of the new objects; none is asked for where no object moved. -/
def newForest (old new : NodeMap) : Except Fault Forest :=
  if (movedIds old new).isEmpty then .ok .empty else Forest.ofMap new

/-- The moved objects and everything below them. -/
def rebuiltIds (f : Forest) (old new : NodeMap) : Std.ExtTreeSet Ident :=
  .ofList ((movedIds old new).flatMap f.below)

/-- The objects to add, each once: in ascending order the fresh ones, and in place of a moved one
everything below it. -/
def additionIds (f : Forest) (old new : NodeMap) : List Ident :=
  distinct ((old.allIds new).flatMap fun id =>
    if old.isFresh new id then [id] else if old.isMoved new id then f.below id else [])

/-! ### Objects to remove -/

/-- Whether the object leaves its place: it is gone or moved. -/
def cascades (old new : NodeMap) (id : Ident) : Bool := old.isGone new id || old.isMoved new id

/-- The object alone, or nothing where an object above it leaves its place too.  Above the object an
object met twice is a cycle. -/
def topmost? (old new : NodeMap) (n : Node) : Except Fault (List Node) :=
  match n.parent with
  | none => .ok [n]
  | some p =>
    match old.climb old.parent? (cascades old new) (Trail.empty.push n.id) p with
    | .stopped _ _ => .ok []
    | .top _ => .ok [n]
    | .looped entry => .error (.cycle entry)

/-- The objects that leave their place: the moved ones, then those that are gone, each in ascending
order. -/
def leaving (old new : NodeMap) : List Node :=
  (movedIds old new ++ (old.allIds new).filter (old.isGone new)).filterMap (old[·]?)

/-! ### Property edits -/

/-- The edit of the property of the given key, if it changes or its object is rebuilt.  The properties
of a removed object go with it and are not edited. -/
def edit? (rebuilt : Std.ExtTreeSet Ident) (old new : Catalog) (k : Property.Key) : Option Property :=
  match old.properties[k]?, new.properties[k]? with
  | none, some q => some (.edit q.owner q.name q.type .null q.after)
  | some p, none =>
    if new.nodes.contains p.owner then some (.edit p.owner p.name p.type p.after .null) else none
  | some p, some q =>
    if !p.sameValue q then some (.edit q.owner q.name q.type p.after q.after)
    else if rebuilt.contains q.owner then some (.edit q.owner q.name q.type q.after q.after)
    else none
  | none, none => none

def allKeys (old new : Catalog) : List Property.Key := (old.properties ∪ new.properties).keys

/-! ### The difference -/

/-- The difference between two catalogs. -/
def between (old new : Catalog) : Except Fault Delta := do
  let f ← newForest old.nodes new.nodes
  let removals ← (leaving old.nodes new.nodes).mapM (topmost? old.nodes new.nodes)
  return {
    additions := (additionIds f old.nodes new.nodes).filterMap (new.nodes[·]?)
    removals := removals.flatten
    edits := (allKeys old new).filterMap (edit? (rebuiltIds f old.nodes new.nodes) old new) }

/-! ### Leaving out the top -/

/-- The addition with its parent replaced, where that is `root`. -/
def rehang (root newRoot : Ident) (n : Node) : Node :=
  if n.isChildOf root then { n with parent := some newRoot } else n

/-- Leaves out the first addition under `place`, and its edits; its children among the additions are
hung under `newRoot` if one is given.  `none` where nothing is added under `place`. -/
def omitRoot? (d : Delta) (place : Ident) (newRoot : Option Ident) : Option Delta := do
  let root ← d.additions.find? (·.isChildOf place)
  let rest := d.additions.eraseP (·.isChildOf place)
  return { d with
    additions := match newRoot with
      | some r => rest.map (rehang root.id r)
      | none => rest
    edits := d.edits.filter (·.owner != root.id) }

end Delta

end GraphDelta
