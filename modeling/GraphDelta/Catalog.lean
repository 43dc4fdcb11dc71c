/-
**Catalogs of snapshots.**

A catalog maps identifiers to objects and keys to properties.  Of several records of one identifier or
key in a snapshot it holds the last.

Main definitions:

* `NodeMap`, `PropertyMap` — objects by identifier, properties by key, and `ofList` for both;
* `Catalog` — the two maps of a snapshot;
* `Catalog.title?` — the name under which an object is shown to a reader.

Main results:

* `NodeMap.id_of_getElem?_ofList`, `PropertyMap.key_of_getElem?_ofList` — every record is filed under
  its own identifier or key.
-/
import GraphDelta.Snapshot

set_option autoImplicit false

namespace GraphDelta

/-! ### Objects by identifier -/

/-- Objects by identifier. -/
abbrev NodeMap := Std.ExtTreeMap Ident Node

namespace NodeMap

/-- Files objects under their identifiers; a later one replaces an earlier one. -/
def ofList (nodes : List Node) : NodeMap := nodes.foldl (fun m n => m.insert n.id n) ∅

/-- The parent that the object of the given identifier names, present or not. -/
def parent? (m : NodeMap) (id : Ident) : Option Ident := m[id]?.bind Node.parent

/-- The parent of the object of the given identifier, if it is present. -/
def presentParent? (m : NodeMap) (id : Ident) : Option Ident :=
  (m.parent? id).filter fun p => m.contains p

/-- The objects, in ascending order of their identifiers. -/
def nodes (m : NodeMap) : List Node := m.toList.map Prod.snd

theorem id_of_getElem?_foldl {nodes : List Node} {m : NodeMap}
    (hm : ∀ (id : Ident) (n : Node), m[id]? = some n → n.id = id) {id : Ident} {n : Node}
    (h : (nodes.foldl (fun (m : NodeMap) n => m.insert n.id n) m)[id]? = some n) : n.id = id := by
  induction nodes generalizing m with
  | nil => exact hm id n h
  | cons a nodes ih =>
    refine ih ?_ h
    intro id n hn
    rw [Std.ExtTreeMap.getElem?_insert] at hn
    split at hn
    · rename_i heq
      cases hn
      exact Std.LawfulEqOrd.eq_of_compare heq
    · exact hm id n hn

/-- Every object is filed under its own identifier. -/
theorem id_of_getElem?_ofList {nodes : List Node} {id : Ident} {n : Node}
    (h : (ofList nodes)[id]? = some n) : n.id = id :=
  id_of_getElem?_foldl (by simp) h

end NodeMap

/-! ### Properties by key -/

/-- Properties by key. -/
abbrev PropertyMap := Std.ExtTreeMap Property.Key Property

namespace PropertyMap

/-- Files properties under their keys; a later one replaces an earlier one. -/
def ofList (properties : List Property) : PropertyMap :=
  properties.foldl (fun m p => m.insert p.key p) ∅

def properties (m : PropertyMap) : List Property := m.toList.map Prod.snd

theorem key_of_getElem?_foldl {properties : List Property} {m : PropertyMap}
    (hm : ∀ (k : Property.Key) (p : Property), m[k]? = some p → p.key = k)
    {k : Property.Key} {p : Property}
    (h : (properties.foldl (fun (m : PropertyMap) p => m.insert p.key p) m)[k]? = some p) :
    p.key = k := by
  induction properties generalizing m with
  | nil => exact hm k p h
  | cons a properties ih =>
    refine ih ?_ h
    intro k p hp
    rw [Std.ExtTreeMap.getElem?_insert] at hp
    split at hp
    · rename_i heq
      cases hp
      exact Std.LawfulEqOrd.eq_of_compare heq
    · exact hm k p hp

theorem key_of_getElem?_ofList {properties : List Property} {k : Property.Key} {p : Property}
    (h : (ofList properties)[k]? = some p) : p.key = k :=
  key_of_getElem?_foldl (by simp) h

end PropertyMap

/-! ### Catalogs -/

/-- The text of a value where it serves as a name: null is none, a text stands bare. -/
def Value.title? (v : Value) : Option String :=
  match v.json with
  | .null => none
  | .string s => some s
  | j => some j.compact

/-- The objects and properties of a snapshot, by identifier and by key. -/
structure Catalog where
  nodes : NodeMap
  properties : PropertyMap
deriving Inhabited

namespace Catalog

def empty : Catalog := ⟨∅, ∅⟩

def ofSnapshot (s : Snapshot) : Catalog := ⟨.ofList s.nodes, .ofList s.properties⟩

/-- The value that a property holds. -/
def value? (c : Catalog) (k : Property.Key) : Option Value := c.properties[k]?.map Property.after

/-- The name under which an object is shown: its property `name`, as text. -/
def title? (c : Catalog) (id : Ident) : Option String := (c.value? ⟨id, "name"⟩).bind Value.title?

end Catalog

end GraphDelta
