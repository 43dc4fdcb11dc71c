/-
**Workspaces.**

A workspace is a sink that holds a graph.  A transaction works on a copy of what is committed and
replaces it at the end.  Removing an object takes everything below it and all their properties along;
an object is below another where climbing over present objects leads from one to the other.  Setting a
property to null clears it.  A conditional update insists on the current value, unless the object was
added in the same transaction.

Main definitions:

* `Workspace.State` — a graph;
* `Workspace.State.below`, `Workspace.State.without` — what a removal takes, and what it leaves;
* `Workspace.Transaction`, `Workspace` — an open transaction, and the whole sink;
* `Workspace.Transaction.apply`, `Workspace.sink` — the calls;
* `Workspace.ofSnapshot`, `Workspace.snapshot` — loading and reading;
* `Workspace.exportTo` — sends what is committed to another sink.
-/
import GraphDelta.Ascent
import GraphDelta.Sink

set_option autoImplicit false

namespace GraphDelta

namespace Workspace

/-! ### Graphs -/

/-- The graph that a workspace holds. -/
structure State where
  nodes : NodeMap
  /-- The properties that are not null. -/
  properties : PropertyMap

namespace State

def empty : State := ⟨∅, ∅⟩

/-- Whether climbing over present objects leads from `id` to `top` in fewer than the given number of
steps. -/
def reaches (s : State) (top : Ident) : Nat → Ident → Bool
  | 0, _ => false
  | fuel + 1, id =>
    match s.nodes[id]? with
    | none => false
    | some n => id == top || n.parent.any (s.reaches top fuel)

/-- Whether climbing over present objects leads from `id` to `top`.  A climb that gets there without
meeting an object twice takes fewer steps than there are objects. -/
def isBelow (s : State) (top id : Ident) : Bool := s.reaches top s.nodes.size id

/-- The present objects from which climbing leads to `top`. -/
def below (s : State) (top : Ident) : Std.ExtTreeSet Ident :=
  .ofList (s.nodes.keys.filter (s.isBelow top))

/-- What is left without some objects and their properties. -/
def without (s : State) (ids : Std.ExtTreeSet Ident) : State where
  nodes := s.nodes.filter fun id _ => !ids.contains id
  properties := s.properties.filter fun k _ => !ids.contains k.owner

/-- The current value of a property, null where it is not set. -/
def value (s : State) (k : Property.Key) : Value :=
  match s.properties[k]? with
  | some p => p.after
  | none => .null

/-- Sets a property, or clears it with null. -/
def set (s : State) (owner : Ident) (name : String) (type : ValueType) (value : Value) : State :=
  { s with properties :=
      if value.isNull then s.properties.erase ⟨owner, name⟩
      else s.properties.insert ⟨owner, name⟩ (.point owner name type value) }

/-- The graph of a snapshot; null values are not kept. -/
def ofSnapshot (s : Snapshot) : State :=
  s.properties.foldl (fun t p => t.set p.owner p.name p.type p.after)
    ⟨NodeMap.ofList s.nodes, ∅⟩

/-- The graph as a snapshot, in ascending order. -/
def snapshot (s : State) : Snapshot := ⟨s.nodes.nodes, s.properties.properties⟩

end State

/-! ### Transactions -/

/-- An open transaction: the graph that it works on, and the objects that it added. -/
structure Transaction where
  state : State
  /-- The present objects that were added in this transaction. -/
  created : Std.ExtTreeSet Ident

namespace Transaction

/-- Adds an object; its identifier must be free. -/
def add (t : Transaction) (n : Node) : Except Refusal Unit × Transaction :=
  if t.state.nodes.contains n.id then (.error (.duplicate n.id), t)
  else
    (.ok (), {
      state := { t.state with nodes := t.state.nodes.insert n.id n }
      created := t.created.insert n.id })

/-- Removes an object, which must hang under the given parent, with everything below it. -/
def remove (t : Transaction) (parent : Option Ident) (id : Ident) :
    Except Refusal Unit × Transaction :=
  match t.state.nodes[id]? with
  | none => (.error (.unknown id), t)
  | some n =>
    if n.parent = parent then
      let gone := t.state.below id
      (.ok (), { state := t.state.without gone, created := t.created.filter (!gone.contains ·) })
    else (.error (.wrongParent id parent n.parent), t)

/-- Sets a property of a present object.  Where a value before is given, and the object was not added
in this transaction, it must be the current value. -/
def set (t : Transaction) (id : Ident) (name : String) (type : ValueType) (before : Option Value)
    (after : Value) : Except Refusal Unit × Transaction :=
  let current := t.state.value ⟨id, name⟩
  let conflict? : Option Value := before.filter fun b => !t.created.contains id && !(current == b)
  if t.state.nodes.contains id then
    match conflict? with
    | some b => (.error (.conflict ⟨id, name⟩ b current), t)
    | none => (.ok (), { t with state := t.state.set id name type after })
  else (.error (.unknown id), t)

/-- The answer to a call within a transaction, and the transaction after it; calls that begin or end
one have no effect on it. -/
def apply : Sink Transaction := fun c t =>
  match c with
  | .add parent typeTag id index => t.add (.make parent typeTag id index)
  | .remove parent id => t.remove parent id
  | .set id name type before after => t.set id name type before after
  | .begin | .commit | .rollback => (.ok (), t)

end Transaction

end Workspace

/-! ### Workspaces -/

/-- A graph with an optional transaction on it. -/
structure Workspace where
  committed : Workspace.State
  pending : Option Workspace.Transaction

namespace Workspace

def empty : Workspace := ⟨.empty, none⟩

def ofSnapshot (s : Snapshot) : Workspace := ⟨.ofSnapshot s, none⟩

/-- What is committed, as a snapshot in ascending order. -/
def snapshot (w : Workspace) : Snapshot := w.committed.snapshot

def size (w : Workspace) : Nat := w.committed.nodes.size

def inTransaction (w : Workspace) : Bool := w.pending.isSome

/-- The workspace as a sink.  A transaction starts from what is committed, and replaces it at the end;
in between, calls work on the transaction. -/
def sink : Sink Workspace := fun c w =>
  match c, w.pending with
  | .begin, some _ => (.error .transactionOpen, w)
  | .begin, none => (.ok (), { w with pending := some ⟨w.committed, ∅⟩ })
  | _, none => (.error .noTransaction, w)
  | .commit, some t => (.ok (), ⟨t.state, none⟩)
  | .rollback, some _ => (.ok (), { w with pending := none })
  | c, some t => ((t.apply c).1, { w with pending := some (t.apply c).2 })

def describe (w : Workspace) : String :=
  "InMemoryWorkspace \x7b object_count: " ++ toString w.size ++ ", in_transaction: " ++
    toString w.inTransaction ++ " \x7d"

/-! ### Export -/

namespace State

/-- The number of present ancestors of an object, but at most the given one. -/
def ancestors (s : State) : Nat → Ident → Nat
  | 0, _ => 0
  | most + 1, id =>
    match s.nodes.presentParent? id with
    | none => 0
    | some p => s.ancestors most p + 1

/-- The number of present ancestors of an object; one more than there are objects where they run in a
cycle. -/
def depth (s : State) (id : Ident) : Nat := s.ancestors (s.nodes.size + 1) id

/-- The order of export, of objects with their depths: by depth, by parent, by place among the
siblings, by identifier. -/
def exportOrder (a b : Nat × Node) : Ordering :=
  (compare a.1 b.1).then <|
    (compare a.2.parent b.2.parent).then <|
      (compare a.2.index.toInt b.2.index.toInt).then (compare a.2.id b.2.id)

def exported (s : State) : List Node :=
  (stableSort (fun a b => (exportOrder a b).isLE)
    (s.nodes.nodes.map fun n => (s.depth n.id, n))).map Prod.snd

/-- The calls that add a graph to a sink in one transaction. -/
def exportCalls (s : State) : List Call :=
  .begin :: s.exported.map (fun n => .add n.parent n.typeTag n.id n.index) ++
    s.properties.properties.map (fun p => .set p.owner p.name p.type none p.after) ++ [.commit]

end State

/-- Sends what is committed to another sink, up to the first call that is refused. -/
def exportTo {σ : Type} (w : Workspace) (target : Sink σ) (s : σ) : Except Refusal Unit × σ :=
  target.send w.committed.exportCalls s

end Workspace

end GraphDelta
