/-
**What is compared with nothing.**

Compared with nothing, everything is fresh.  The objects are added in the order of their identifiers,
nothing is removed, and every property is edited from null to its value, in the order of the keys.  As
no object has moved, no forest is asked for, and the comparison succeeds even where parents run in a
cycle.

Main definitions:

* `Property.creation` — the edit that makes a property;
* `Delta.creation` — the change that makes everything in a catalog.

Main results:

* `Delta.between_empty`, `Comparison.compare_empty` — **the difference from nothing**.
-/
import GraphDelta.Proofs.Edits
import GraphDelta.Proofs.State

set_option autoImplicit false

namespace GraphDelta

/-! ### Maps -/

/-- Looking up every key of a map lists what the map holds. -/
theorem filterMap_getElem?_keys {κ α : Type} [Ord κ] [Std.TransOrd κ] [Std.LawfulEqOrd κ]
    (m : Std.ExtTreeMap κ α) : m.keys.filterMap (m[·]?) = m.toList.map Prod.snd := by
  rw [← Std.ExtTreeMap.map_fst_toList_eq_keys, List.filterMap_map, ← List.filterMap_eq_map]
  refine List.filterMap_congr ?_
  rintro ⟨k, a⟩ h
  exact Std.ExtTreeMap.mem_toList_iff_getElem?_eq_some.1 h

theorem empty_union {κ α : Type} [Ord κ] [Std.TransOrd κ] [Std.LawfulEqOrd κ]
    (m : Std.ExtTreeMap κ α) : ∅ ∪ m = m := by
  refine Std.ExtTreeMap.ext_getElem? fun k => ?_
  rw [Std.ExtTreeMap.getElem?_union, Std.ExtTreeMap.getElem?_empty, Option.or_none]

namespace NodeMap

variable (m : NodeMap) (id : Ident)

theorem allIds_empty : (∅ : NodeMap).allIds m = m.keys := by
  rw [allIds, empty_union]

theorem isMoved_empty : (∅ : NodeMap).isMoved m id = false := by
  rw [isMoved, Std.ExtTreeMap.getElem?_empty]

theorem isFresh_empty : (∅ : NodeMap).isFresh m id = m.contains id := by
  rw [isFresh, Std.ExtTreeMap.contains_empty, Bool.not_false, Bool.true_and]

end NodeMap

/-! ### The difference from nothing -/

/-- The edit that makes a property. -/
def Property.creation (p : Property) : Property := .edit p.owner p.name p.type .null p.after

namespace Delta

/-- The change that makes everything in a catalog. -/
def creation (c : Catalog) : Delta where
  additions := c.nodes.nodes
  removals := []
  edits := c.properties.properties.map Property.creation

theorem movedIds_empty (m : NodeMap) : movedIds ∅ m = [] := by
  rw [movedIds, List.filter_eq_nil_iff]
  intro id _
  rw [NodeMap.isMoved_empty]
  exact Bool.false_ne_true

theorem additionIds_empty (f : Forest) (m : NodeMap) : additionIds f ∅ m = m.keys := by
  have hfresh : ∀ id ∈ m.keys, (if (∅ : NodeMap).isFresh m id then [id]
      else if (∅ : NodeMap).isMoved m id then f.below id else []) = [id] := by
    intro id hid
    rw [NodeMap.isFresh_empty]
    exact if_pos (Std.ExtTreeMap.mem_iff_contains.1 (Std.ExtTreeMap.mem_keys.1 hid))
  rw [additionIds, NodeMap.allIds_empty, List.flatMap_congr hfresh, List.flatMap_singleton']
  exact distinct_of_nodup Std.ExtTreeMap.nodup_keys

theorem leaving_empty (m : NodeMap) : leaving ∅ m = [] := by
  rw [leaving, List.filterMap_eq_nil_iff]
  intro id _
  exact Std.ExtTreeMap.getElem?_empty

theorem edit?_empty (rebuilt : Std.ExtTreeSet Ident) (c : Catalog) (k : Property.Key) :
    edit? rebuilt .empty c k = c.properties[k]?.map Property.creation := by
  have hnone : Catalog.empty.properties[k]? = none := Std.ExtTreeMap.getElem?_empty
  rw [edit?, hnone]
  cases c.properties[k]? <;> rfl

/-- **The difference from nothing** makes everything. -/
theorem between_empty (c : Catalog) : between .empty c = .ok (creation c) := by
  refine between_eq_ok_iff.2 ⟨.empty, [], ?_, ?_, ?_⟩
  · exact if_pos (congrArg List.isEmpty (movedIds_empty c.nodes))
  · exact congrArg (List.mapM (topmost? Catalog.empty.nodes c.nodes)) (leaving_empty c.nodes)
  · have hadditions : (additionIds .empty Catalog.empty.nodes c.nodes).filterMap (c.nodes[·]?) =
        c.nodes.nodes := by
      rw [Catalog.empty, additionIds_empty]
      exact filterMap_getElem?_keys c.nodes
    have hedits (rebuilt : Std.ExtTreeSet Ident) :
        (allKeys .empty c).filterMap (edit? rebuilt .empty c) =
          c.properties.properties.map Property.creation := by
      have hkeys : allKeys .empty c = c.properties.keys :=
        congrArg Std.ExtTreeMap.keys (empty_union c.properties)
      rw [hkeys, List.filterMap_congr fun k _ => edit?_empty rebuilt c k, ← List.map_filterMap]
      exact congrArg (List.map Property.creation) (filterMap_getElem?_keys c.properties)
    rw [hadditions, hedits]
    rfl

variable {c : Catalog} {n : Node} {e : Property}

theorem mem_additions_creation (hc : c.nodes.Filed) :
    n ∈ (creation c).additions ↔ c.nodes[n.id]? = some n := mem_map_snd_toList hc

theorem mem_edits_creation (hc : c.properties.Filed) :
    e ∈ (creation c).edits ↔ ∃ q : Property, c.properties[q.key]? = some q ∧ e = q.creation := by
  rw [creation, List.mem_map]
  simp only [PropertyMap.properties, mem_map_snd_toList hc, @eq_comm _ e]

end Delta

/-- **Comparing nothing with a snapshot** succeeds, and makes everything. -/
theorem Comparison.compare_empty (s : Snapshot) : fresh.compare ∅ s =
    (.ok (), .done .empty (.ofSnapshot s) (.creation (.ofSnapshot s))) :=
  compare_eq_ok_iff.2 ⟨_, Delta.between_empty _, rfl⟩

end GraphDelta
