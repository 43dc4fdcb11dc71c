/-
**Snapshots.**

A snapshot lists the objects and the properties of a graph at a point in time.  The lists are kept as
they were given: an identifier or a key may occur more than once, a parent or an owner may be missing.

Main definitions:

* `Snapshot` — the two lists, with an equality that follows the values;
* `Snapshot.normalized` — the records sorted, those of one identifier or key in the order given;
* `Snapshot.validate` — no record without an identifier, an owner or a name.
-/
import GraphDelta.Node
import GraphDelta.Property
import GraphDelta.StableSort
import GraphDelta.Text.Quoted

set_option autoImplicit false

namespace GraphDelta

/-- The objects and properties of a graph at a point in time. -/
structure Snapshot where
  nodes : List Node
  properties : List Property
deriving DecidableEq, Inhabited

namespace Snapshot

def empty : Snapshot := ⟨[], []⟩

instance : EmptyCollection Snapshot := ⟨empty⟩

def isEmpty (s : Snapshot) : Bool := s.nodes.isEmpty && s.properties.isEmpty

/-- Equality of snapshots, record by record. -/
instance : BEq Snapshot where
  beq s t := s.nodes == t.nodes && s.properties == t.properties

theorem beq_def (s t : Snapshot) :
    (s == t) = (s.nodes == t.nodes && s.properties == t.properties) := rfl

/-! ### Sorting -/

/-- The records sorted by identifier and by key; records of one identifier or key keep their order. -/
def normalized (s : Snapshot) : Snapshot where
  nodes := stableSort (fun a b => (compare a.id b.id).isLE) s.nodes
  properties := stableSort (fun a b => (compare a.key b.key).isLE) s.properties

/-! ### Validity -/

/-- What can be wrong with a snapshot, or with the document of one. -/
inductive Error where
  | malformed
  | emptyId
  | emptyOwner (name : String)
  | emptyName (owner : Ident)
deriving DecidableEq

def Error.message : Error → String
  | .malformed => "serialization error"
  | .emptyId => "object record has an empty id"
  | .emptyOwner name => "property " ++ Text.quoted name ++ " has an empty object id"
  | .emptyName owner => "object " ++ owner.text ++ " has an empty property name"

/-- What is wrong with a property, if anything: the owner is looked at first. -/
def propertyError? (p : Property) : Option Error :=
  if p.owner.isEmpty then some (.emptyOwner p.name)
  else if p.name.isEmpty then some (.emptyName p.owner)
  else none

/-- The first thing that is wrong with a snapshot; objects come before properties. -/
def error? (s : Snapshot) : Option Error :=
  if s.nodes.any (·.id.isEmpty) then some .emptyId
  else s.properties.findSome? propertyError?

/-- Accepts a snapshot in which nothing is wrong. -/
def validate (s : Snapshot) : Except Error Unit :=
  match s.error? with
  | some e => .error e
  | none => .ok ()

end Snapshot

end GraphDelta
