/-
**How two maps of objects differ.**

An object of two maps is fresh, gone, moved, or the same in both.  The gone and the moved ones leave
their place.  A difference of two catalogs is put together from three lists, two of which can fail to
exist: the forest of the new map, which is asked for only if something moved, and the removals.

Main definitions:

* `Snapshot.objects` — the objects of a snapshot, by identifier;
* `Snapshot.Treelike`, `Snapshot.Owned` — the objects form trees, and the properties belong to them;
* `NodeMap.Filed` — every object is filed under its own identifier;
* `NodeMap.Moved`, `NodeMap.Departs` — an object has different records, or leaves its place.

Main results:

* `NodeMap.getElem?_ofList`, `PropertyMap.getElem?_ofList` — **the last record counts**;
* `NodeMap.isMoved_iff`, `Delta.cascades_iff_departs` — what is tested for by a difference;
* `Delta.exists_newForest_eq_ok_iff` — when there is a forest, if it is asked for;
* `Delta.between_eq_ok_iff` — the parts of a difference.
-/
import GraphDelta.Comparison
import GraphDelta.Proofs.Subtree

set_option autoImplicit false

namespace GraphDelta

variable {old new : NodeMap} {id : Ident} {n : Node}

/-- The objects of a snapshot, by identifier. -/
abbrev Snapshot.objects (s : Snapshot) : NodeMap := NodeMap.ofList s.nodes

/-! ### Looking things up -/

/-- Looking things up by what they carry yields each thing in the place of its key. -/
theorem map_filterMap_sublist {α β : Type} {f : α → Option β} {g : β → α}
    (hfg : ∀ a b, f a = some b → g b = a) (l : List α) : ((l.filterMap f).map g).Sublist l := by
  induction l with
  | nil => exact .slnil
  | cons a l ih =>
      rw [List.filterMap_cons]
      cases hf : f a with
      | none => exact ih.cons a
      | some b => rw [List.map_cons, hfg a b hf]; exact ih.cons_cons a

/-- Of the items that are filed under a key, the last one is found there, or else what was there. -/
theorem getElem?_foldl_insert {α κ : Type} [Ord κ] [Std.TransOrd κ] [Std.LawfulEqOrd κ]
    [DecidableEq κ] (key : α → κ) (l : List α) (m : Std.ExtTreeMap κ α) (k : κ) :
    (l.foldl (fun m a => m.insert (key a) a) m)[k]? = (l.filter (key · = k)).getLast?.or m[k]? := by
  induction l generalizing m with
  | nil => simp
  | cons a l ih =>
      rw [List.foldl_cons, ih, Std.ExtTreeMap.getElem?_insert, List.filter_cons]
      by_cases hk : key a = k
      · simp only [hk, decide_true, if_true, Std.ReflOrd.compare_self, List.getLast?_cons]
        cases (l.filter (key · = k)).getLast? <;> rfl
      · have hne : ¬ compare (key a) k = .eq := fun h => hk (Std.LawfulEqOrd.eq_of_compare h)
        simp only [hk, decide_false, hne, if_false, Bool.false_eq_true]

theorem NodeMap.getElem?_ofList (nodes : List Node) (id : Ident) :
    (ofList nodes)[id]? = (nodes.filter (·.id = id)).getLast? := by
  rw [ofList, getElem?_foldl_insert, Std.ExtTreeMap.getElem?_empty, Option.or_none]

theorem PropertyMap.getElem?_ofList (properties : List Property) (k : Property.Key) :
    (ofList properties)[k]? = (properties.filter (·.key = k)).getLast? := by
  rw [ofList, getElem?_foldl_insert, Std.ExtTreeMap.getElem?_empty, Option.or_none]

theorem NodeMap.mem_of_getElem?_ofList {nodes : List Node} (h : (ofList nodes)[id]? = some n) :
    n ∈ nodes := by
  rw [getElem?_ofList] at h
  exact List.mem_of_mem_filter (List.mem_of_getLast? h)

theorem PropertyMap.mem_of_getElem?_ofList {ps : List Property} {k : Property.Key} {p : Property}
    (h : (ofList ps)[k]? = some p) : p ∈ ps := by
  rw [getElem?_ofList] at h
  exact List.mem_of_mem_filter (List.mem_of_getLast? h)

/-! ### Well-formed snapshots -/

namespace Snapshot

/-- No object has an empty parent, and none is its own ancestor. -/
structure Treelike (s : Snapshot) : Prop where
  parent_ne_empty : ∀ n ∈ s.nodes, ∀ p, n.parent = some p → p.isEmpty = false
  acyclic : s.objects.Acyclic

/-- Every property belongs to an object of the snapshot. -/
def Owned (s : Snapshot) : Prop := ∀ p ∈ s.properties, p.owner ∈ s.objects

end Snapshot

/-! ### How an object differs -/

namespace NodeMap

/-- Every object is filed under its own identifier. -/
def Filed (m : NodeMap) : Prop := ∀ (id : Ident) (n : Node), m[id]? = some n → n.id = id

theorem filed_ofList (nodes : List Node) : (ofList nodes).Filed := fun _ _ => id_of_getElem?_ofList

theorem mem_iff_exists {m : NodeMap} : id ∈ m ↔ ∃ n, m[id]? = some n := by
  rw [Std.ExtTreeMap.mem_iff_isSome_getElem?, Option.isSome_iff_exists]

theorem mem_allIds : id ∈ old.allIds new ↔ id ∈ old ∨ id ∈ new := by
  rw [allIds, Std.ExtTreeMap.mem_keys, Std.ExtTreeMap.mem_union_iff]

theorem isFresh_eq (old new : NodeMap) (id : Ident) :
    old.isFresh new id = (!old[id]?.isSome && new[id]?.isSome) := by
  rw [isFresh, Std.ExtTreeMap.contains_eq_isSome_getElem?,
    Std.ExtTreeMap.contains_eq_isSome_getElem?]

theorem isGone_eq (old new : NodeMap) (id : Ident) :
    old.isGone new id = (old[id]?.isSome && !new[id]?.isSome) := by
  rw [isGone, Std.ExtTreeMap.contains_eq_isSome_getElem?,
    Std.ExtTreeMap.contains_eq_isSome_getElem?]

theorem isFresh_iff : old.isFresh new id = true ↔ id ∉ old ∧ id ∈ new := by
  simp [isFresh, Bool.eq_false_iff]

theorem isGone_iff : old.isGone new id = true ↔ id ∈ old ∧ id ∉ new := by
  simp [isGone, Bool.eq_false_iff]

/-- The object is in both maps, with different records. -/
def Moved (old new : NodeMap) (id : Ident) : Prop :=
  ∃ a b, old[id]? = some a ∧ new[id]? = some b ∧ a ≠ b

theorem Moved.mem (h : Moved old new id) : id ∈ old ∧ id ∈ new := by
  obtain ⟨a, b, ha, hb, -⟩ := h
  exact ⟨mem_of_getElem?_eq_some ha, mem_of_getElem?_eq_some hb⟩

theorem isMoved_iff : old.isMoved new id = true ↔ Moved old new id := by
  rw [isMoved]
  split
  · rename_i a b ha hb
    simp [Moved, ha, hb]
  · rename_i hno
    constructor
    · intro h
      exact absurd h Bool.false_ne_true
    · rintro ⟨a, b, ha, hb, -⟩
      exact absurd hb (hno a b ha)

/-- The object is in the old map, and the new one does not hold its record. -/
def Departs (old new : NodeMap) (id : Ident) : Prop := ∃ n, old[id]? = some n ∧ new[id]? ≠ some n

end NodeMap

namespace Delta

theorem mem_movedIds : id ∈ movedIds old new ↔ old.Moved new id := by
  rw [movedIds, List.mem_filter, NodeMap.mem_allIds, NodeMap.isMoved_iff]
  exact ⟨And.right, fun h => ⟨.inl h.mem.1, h⟩⟩

theorem cascades_iff :
    cascades old new id = true ↔ old.isGone new id = true ∨ old.Moved new id := by
  rw [cascades, Bool.or_eq_true, NodeMap.isMoved_iff]

theorem cascades_of_gone (hold : id ∈ old) (hnew : id ∉ new) : cascades old new id = true :=
  cascades_iff.2 (.inl (NodeMap.isGone_iff.2 ⟨hold, hnew⟩))

theorem mem_of_cascades (h : cascades old new id = true) : id ∈ old := by
  rcases cascades_iff.1 h with h | h
  · exact (NodeMap.isGone_iff.1 h).1
  · exact h.mem.1

theorem cascades_iff_departs : cascades old new id = true ↔ old.Departs new id := by
  rw [cascades_iff, NodeMap.isGone_iff]
  constructor
  · rintro (⟨hold, hnew⟩ | ⟨a, b, ha, hb, hne⟩)
    · obtain ⟨n, hn⟩ := NodeMap.mem_iff_exists.1 hold
      exact ⟨n, hn, fun hn' => hnew (NodeMap.mem_of_getElem?_eq_some hn')⟩
    · exact ⟨a, ha, fun ha' => hne (Option.some_inj.1 (ha'.symm.trans hb))⟩
  · rintro ⟨n, hn, hne⟩
    by_cases hnew : id ∈ new
    · obtain ⟨b, hb⟩ := NodeMap.mem_iff_exists.1 hnew
      exact .inr ⟨n, b, hn, hb, fun hnb => hne (hnb ▸ hb)⟩
    · exact .inl ⟨NodeMap.mem_of_getElem?_eq_some hn, hnew⟩

/-! ### The difference -/

variable {o c : Catalog} {d : Delta}

theorem newForest_of_moved (h : old.Moved new id) :
    newForest old new = Forest.ofMap new := by
  have hne : ¬ (movedIds old new).isEmpty = true := by
    rw [List.isEmpty_iff]
    exact List.ne_nil_of_mem (mem_movedIds.2 h)
  rw [newForest, if_neg hne]

theorem newForest_of_not_moved (h : ¬ ∃ id, old.Moved new id) :
    newForest old new = .ok .empty := by
  rw [newForest, if_pos]
  rw [List.isEmpty_iff, List.eq_nil_iff_forall_not_mem]
  exact fun id hid => h ⟨id, mem_movedIds.1 hid⟩

theorem exists_newForest_eq_ok_iff :
    (∃ f, newForest old new = .ok f) ↔ ((∃ id, old.Moved new id) → new.Acyclic) := by
  by_cases hm : ∃ id, old.Moved new id
  · obtain ⟨id, hid⟩ := hm
    rw [newForest_of_moved hid, Forest.exists_ofMap_eq_ok_iff]
    exact ⟨fun hn _ => hn, fun hn => hn ⟨id, hid⟩⟩
  · exact iff_of_true ⟨_, newForest_of_not_moved hm⟩ fun h => absurd h hm

theorem between_eq_ok_iff : between o c = .ok d ↔ ∃ f lists,
    newForest o.nodes c.nodes = .ok f ∧
    (leaving o.nodes c.nodes).mapM (topmost? o.nodes c.nodes) = .ok lists ∧
    d = { additions := (additionIds f o.nodes c.nodes).filterMap (c.nodes[·]?)
          removals := lists.flatten
          edits := (allKeys o c).filterMap (edit? (rebuiltIds f o.nodes c.nodes) o c) } := by
  rw [between]
  cases newForest o.nodes c.nodes <;>
    cases (leaving o.nodes c.nodes).mapM (topmost? o.nodes c.nodes) <;>
      simp [bind, Except.bind, pure, Except.pure, eq_comm]

theorem between_eq_error_iff {e : Fault} : between o c = .error e ↔
    newForest o.nodes c.nodes = .error e ∨ ∃ f, newForest o.nodes c.nodes = .ok f ∧
      (leaving o.nodes c.nodes).mapM (topmost? o.nodes c.nodes) = .error e := by
  rw [between]
  cases newForest o.nodes c.nodes <;>
    cases (leaving o.nodes c.nodes).mapM (topmost? o.nodes c.nodes) <;>
      simp [bind, Except.bind, pure, Except.pure]

end Delta

namespace Comparison

theorem compare_eq_ok_iff {old new : Snapshot} {c : Comparison} :
    fresh.compare old new = (.ok (), c) ↔ ∃ d,
      Delta.between (.ofSnapshot old) (.ofSnapshot new) = .ok d ∧
        c = .done (.ofSnapshot old) (.ofSnapshot new) d := by
  rw [compare]
  cases Delta.between (.ofSnapshot old) (.ofSnapshot new) <;> simp [eq_comm]

theorem exists_compare_eq_error_iff {old new : Snapshot} :
    (∃ e, (fresh.compare old new).1 = .error e) ↔
      ¬ ∃ d, Delta.between (.ofSnapshot old) (.ofSnapshot new) = .ok d := by
  rw [compare]
  cases Delta.between (.ofSnapshot old) (.ofSnapshot new) <;> simp

end Comparison

end GraphDelta
