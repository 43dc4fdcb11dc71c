/-
**The order in which records are listed.**

A snapshot lists its records in some order, and the order matters only where an identifier or a key has
more than one record: the last of them counts.  Whoever lists the records anew, and leaves those of each
identifier and of each key in their order, gets the same catalog.  A comparison asks nothing but the
catalogs, whatever lists it makes on the way, and so it ends in the same way: with the same fault, or
with the same changes in the same order.

Main definitions:

* `Snapshot.Reordered` — every identifier and every key has the same records in the same order.

Main results:

* `Snapshot.reordered_normalized` — sorting the records is a reordering;
* `Snapshot.Reordered.ofSnapshot_eq` — a reordering has the same catalog;
* `Comparison.compare_reordered` — **comparisons of reordered snapshots agree**.
-/
import GraphDelta.Outline
import GraphDelta.Proofs.Difference

set_option autoImplicit false

namespace GraphDelta

/-! ### Reorderings -/

namespace Snapshot

variable {s t : Snapshot}

/-- Every identifier has the same objects in the same order in both snapshots, and every key the same
properties. -/
structure Reordered (s t : Snapshot) : Prop where
  nodes : ∀ id : Ident, s.nodes.filter (·.id = id) = t.nodes.filter (·.id = id)
  properties : ∀ k : Property.Key, s.properties.filter (·.key = k) = t.properties.filter (·.key = k)

/-- Only keys that occur need be looked at. -/
theorem forall_filter_eq_iff {α κ : Type} [DecidableEq κ] (key : α → κ) (l l' : List α) :
    (∀ k, l.filter (key · = k) = l'.filter (key · = k)) ↔
      ∀ a ∈ l ++ l', l.filter (key · = key a) = l'.filter (key · = key a) := by
  refine ⟨fun h a _ => h (key a), fun h k => ?_⟩
  by_cases hk : ∃ a ∈ l ++ l', key a = k
  · obtain ⟨a, ha, rfl⟩ := hk
    exact h a ha
  · have hnone {m : List α} (hm : m ⊆ l ++ l') : m.filter (key · = k) = [] := by
      rw [List.filter_eq_nil_iff]
      intro a ha hak
      exact hk ⟨a, hm ha, of_decide_eq_true hak⟩
    rw [hnone (List.subset_append_left l l'), hnone (List.subset_append_right l l')]

instance (s t : Snapshot) : Decidable (s.Reordered t) :=
  decidable_of_iff
    ((∀ n ∈ s.nodes ++ t.nodes, s.nodes.filter (·.id = n.id) = t.nodes.filter (·.id = n.id)) ∧
      ∀ p ∈ s.properties ++ t.properties,
        s.properties.filter (·.key = p.key) = t.properties.filter (·.key = p.key))
    ⟨fun h => ⟨(forall_filter_eq_iff Node.id _ _).2 h.1, (forall_filter_eq_iff Property.key _ _).2 h.2⟩,
      fun h => ⟨fun n _ => h.nodes n.id, fun p _ => h.properties p.key⟩⟩

theorem reordered_normalized (s : Snapshot) : s.Reordered s.normalized := by
  constructor
  · intro id
    refine (filter_stableSort ?_ s.nodes).symm
    intro a b ha hb
    rw [of_decide_eq_true ha, of_decide_eq_true hb, Std.ReflOrd.compare_self]
    rfl
  · intro k
    refine (filter_stableSort ?_ s.properties).symm
    intro p q hp hq
    rw [of_decide_eq_true hp, of_decide_eq_true hq, Std.ReflOrd.compare_self]
    rfl

theorem Reordered.ofSnapshot_eq (h : s.Reordered t) : Catalog.ofSnapshot s = Catalog.ofSnapshot t := by
  have hnodes : NodeMap.ofList s.nodes = NodeMap.ofList t.nodes := by
    refine Std.ExtTreeMap.ext_getElem? fun id => ?_
    rw [NodeMap.getElem?_ofList, NodeMap.getElem?_ofList, h.nodes]
  have hproperties : PropertyMap.ofList s.properties = PropertyMap.ofList t.properties := by
    refine Std.ExtTreeMap.ext_getElem? fun k => ?_
    rw [PropertyMap.getElem?_ofList, PropertyMap.getElem?_ofList, h.properties]
  rw [Catalog.ofSnapshot, hnodes, hproperties, Catalog.ofSnapshot]

end Snapshot

/-! ### Comparisons -/

namespace Comparison

variable {old old' new new' : Snapshot}

/-- **Comparisons of reordered snapshots agree**: in their fault, or in the lists of changes, in the
order of the additions, and in every outline.  Sorting the records is a reordering. -/
theorem compare_reordered (hold : old.Reordered old') (hnew : new.Reordered new') :
    let r := fresh.compare old new
    let r' := fresh.compare old' new'
    r.1 = r'.1 ∧ r.2.delta.additions = r'.2.delta.additions ∧
    r.2.delta.removals = r'.2.delta.removals ∧ r.2.delta.edits = r'.2.delta.edits ∧
    r.2.order = r'.2.order ∧
    (∀ (root : Ident) (shows : String → String → Bool),
      r.2.outline root shows = r'.2.outline root shows) ∧
    old.Reordered old.normalized ∧ new.Reordered new.normalized := by
  intro r r'
  have hr : r = r' := by
    change fresh.compare old new = fresh.compare old' new'
    rw [compare, compare, hold.ofSnapshot_eq, hnew.ofSnapshot_eq]
  rw [hr]
  exact ⟨rfl, rfl, rfl, rfl, rfl, fun _ _ => rfl, old.reordered_normalized, new.reordered_normalized⟩

/-- Records of `a` and of its property occur twice, `b` has no parent to hang under, and `c` and `d` run
in a cycle: listed in another order they are added in the same order. -/
theorem compare_reordered_duplicates :
    let old : Snapshot := ⟨[⟨none, "T", ⟨"a"⟩, 0⟩], []⟩
    let new : Snapshot := ⟨
      [⟨some ⟨"b"⟩, "T", ⟨"a"⟩, 0⟩, ⟨some ⟨"x"⟩, "T", ⟨"b"⟩, 0⟩, ⟨none, "T", ⟨"a"⟩, 0⟩,
        ⟨some ⟨"d"⟩, "T", ⟨"c"⟩, 0⟩, ⟨some ⟨"c"⟩, "T", ⟨"d"⟩, 0⟩],
      [.point ⟨"a"⟩ "n" .string (.ofText "1"), .point ⟨"b"⟩ "n" .string (.ofText "2"),
        .point ⟨"a"⟩ "n" .string (.ofText "3")]⟩
    let new' : Snapshot := ⟨
      [⟨some ⟨"c"⟩, "T", ⟨"d"⟩, 0⟩, ⟨some ⟨"b"⟩, "T", ⟨"a"⟩, 0⟩, ⟨none, "T", ⟨"a"⟩, 0⟩,
        ⟨some ⟨"d"⟩, "T", ⟨"c"⟩, 0⟩, ⟨some ⟨"x"⟩, "T", ⟨"b"⟩, 0⟩],
      [.point ⟨"a"⟩ "n" .string (.ofText "1"), .point ⟨"a"⟩ "n" .string (.ofText "3"),
        .point ⟨"b"⟩ "n" .string (.ofText "2")]⟩
    new.Reordered new' ∧ (fresh.compare old new').1 = .ok () ∧
      (fresh.compare old new').2.delta.additions.map Node.id = [⟨"b"⟩, ⟨"c"⟩, ⟨"d"⟩] ∧
      (fresh.compare old new').2.delta.edits.length = 2 := by
  intro old new new'
  have hold : old.Reordered old := by decide +kernel
  have hnew : new.Reordered new' := by decide +kernel
  obtain ⟨hanswer, hadditions, -, hedits, -⟩ := compare_reordered hold hnew
  refine ⟨hnew, ?_, ?_, ?_⟩
  · rw [← hanswer]
    decide +kernel
  · rw [← hadditions]
    decide +kernel
  · rw [← hedits]
    decide +kernel

end Comparison

end GraphDelta
