/-
**Objects of a graph.**

A `Node` records one object: where it hangs, what it is and at which place among its siblings.  It
knows its parent by identifier only; whether that parent exists is a question about a whole snapshot.

Main definitions:

* `Node` — the record of an object;
* `Node.make` — the record with an empty parent read as none;
* `Node.simpleType` — the last part of a dotted type tag.
-/
import GraphDelta.Ident

set_option autoImplicit false

namespace GraphDelta

/-- The last part of a dotted type tag; a tag without a dot is its own last part. -/
def simpleTypeName (tag : String) : String :=
  String.ofList (tag.toList.reverse.takeWhile (· != '.')).reverse

/-- The record of one object. -/
structure Node where
  parent : Option Ident
  typeTag : String
  id : Ident
  index : Int32
deriving DecidableEq, Inhabited

namespace Node

/-- A record in which an empty parent stands for none. -/
def make (parent : Option Ident) (typeTag : String) (id : Ident) (index : Int32) : Node :=
  { parent := parent.bind Ident.nonempty?, typeTag, id, index }

/-- The type of the object without the parts that say where the type is defined. -/
def simpleType (n : Node) : String := simpleTypeName n.typeTag

def isChildOf (n : Node) (p : Ident) : Bool := n.parent == some p

theorem make_eq (parent : Option Ident) (typeTag : String) (id : Ident) (index : Int32) :
    make parent typeTag id index = ⟨parent.filter (!·.isEmpty), typeTag, id, index⟩ := by
  cases parent with
  | none => rfl
  | some p => cases hp : p.isEmpty <;> simp [make, Ident.nonempty?, Option.filter, hp]

end Node

end GraphDelta
