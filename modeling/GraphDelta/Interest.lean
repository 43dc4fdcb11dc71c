/-
**Which properties are worth showing.**

An interest table names, for types of objects, the properties whose edits are shown.  A type is named
by its full tag or by its simple name, and both names count.  An empty table is no restriction.

Main definitions:

* `Interest` — the table;
* `Interest.accepts` — whether a property of an object of a type is shown.
-/
import GraphDelta.Node

set_option autoImplicit false

namespace GraphDelta

/-- The names of properties worth showing, by type. -/
structure Interest where
  /-- Property names, by full type tag or simple type name. -/
  table : Std.ExtTreeMap String (Std.ExtTreeSet String)

namespace Interest

/-- The table that does not restrict anything. -/
def all : Interest := ⟨∅⟩

def ofList (entries : List (String × List String)) : Interest :=
  ⟨entries.foldl (fun t (type, names) => t.insert type (Std.ExtTreeSet.ofList names)) ∅⟩

def isEmpty (i : Interest) : Bool := i.table.isEmpty

/-- Whether the table lists the property under the given type name. -/
def lists (i : Interest) (type property : String) : Bool :=
  match i.table[type]? with
  | some names => names.contains property
  | none => false

/-- Whether the property of an object with the given type tag is shown. -/
def accepts (i : Interest) (tag property : String) : Bool :=
  i.isEmpty || i.lists tag property || i.lists (simpleTypeName tag) property

end Interest

end GraphDelta
