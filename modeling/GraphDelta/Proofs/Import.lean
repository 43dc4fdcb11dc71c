/-
**Importing a snapshot under another root.**

Compared with nothing, a snapshot has to be made as a whole.  Leaving out the object on top, and hanging
its children under an object of some graph, turns this into an import: the rest of the snapshot is added
to the graph, below that object.  The import goes through if the graph has none of the objects, and
leaves alone what the graph held before.

The new root is not one of the additions.  So the rehung additions come first in their order, like those
whose parents are missing, and the others are ordered as if nothing had been left out.

Main definitions:

* `NodeMap.IsFirstUnder` — the object with the lowest identifier under a place;
* `Workspace.State.Receives` — a graph that a snapshot can be imported into;
* `Workspace.State.Imported` — what an import makes of a graph.

Main results:

* `Delta.mem_of_omitRoot?` — **what is left when the top is left out**;
* `Comparison.Accounted.exists_order` — additions that are rehung have an order, if the new snapshot has
  no cycle;
* `Comparison.exists_replay_of_free` — a replay that only makes things goes through where none of them is
  in its way;
* `Comparison.import_under_root` — **a snapshot is imported under another root**.
-/
import GraphDelta.Proofs.Convergence
import GraphDelta.Proofs.Creation
import GraphDelta.Proofs.Effect
import GraphDelta.Proofs.Rehanging
import GraphDelta.Proofs.Strict

set_option autoImplicit false

namespace GraphDelta

variable {m : NodeMap} {x place root : Ident} {n top : Node} {d d' : Delta} {c : Comparison}
  {given : List Ident} {l : List Node}

/-! ### The object on top -/

namespace NodeMap

/-- The object hangs under the place, and none with a lower identifier does. -/
structure IsFirstUnder (m : NodeMap) (place id : Ident) : Prop where
  parent : m.parent? id = some place
  least : ∀ x, m.parent? x = some place → (compare id x).isLE = true

theorem pairwise_nodes (hm : m.Filed) : m.nodes.Pairwise fun a b => compare a.id b.id = .lt :=
  pairwise_map_snd_toList hm

/-- Of the objects under a place, the one with the lowest identifier is found. -/
theorem exists_find?_isChildOf (hm : m.Filed) (h : m.parent? x = some place) :
    ∃ n, m.nodes.find? (·.isChildOf place) = some n ∧ m.IsFirstUnder place n.id := by
  have hchild {y : Ident} (hy : m.parent? y = some place) :
      ∃ b ∈ m.nodes, b.id = y ∧ b.isChildOf place = true := by
    obtain ⟨b, hb, hparent⟩ := parent?_eq_some_iff.1 hy
    cases hm y b hb
    exact ⟨b, (mem_map_snd_toList hm).2 hb, rfl, beq_iff_eq.2 hparent⟩
  cases hn : m.nodes.find? (·.isChildOf place) with
  | none =>
      obtain ⟨b, hb, -, hbchild⟩ := hchild h
      exact absurd hbchild (List.find?_eq_none.1 hn b hb)
  | some n =>
      obtain ⟨hnchild, before, after, hsplit, hbefore⟩ := List.find?_eq_some_iff_append.1 hn
      have hmem : m[n.id]? = some n := (mem_map_snd_toList hm).1 (List.mem_of_find?_eq_some hn)
      have hsorted := pairwise_nodes hm
      rw [hsplit, List.pairwise_append, List.pairwise_cons] at hsorted
      refine ⟨n, rfl, parent?_eq_some_iff.2 ⟨n, hmem, beq_iff_eq.1 hnchild⟩, ?_⟩
      intro y hy
      obtain ⟨b, hb, rfl, hbchild⟩ := hchild hy
      rw [hsplit, List.mem_append, List.mem_cons] at hb
      rcases hb with hb | rfl | hb
      · have hno := hbefore b hb
        rw [hbchild] at hno
        cases hno
      · exact Std.ReflCmp.isLE_rfl
      · exact Ordering.isLE_of_eq_lt (hsorted.2.1.1 b hb)

end NodeMap

/-! ### Leaving out the top -/

namespace Delta

theorem exists_omitRoot?_eq_some (h : d.additions.find? (·.isChildOf place) = some top)
    (newRoot : Option Ident) : ∃ d', d.omitRoot? place newRoot = some d' :=
  ⟨_, by rw [omitRoot?, h]; rfl⟩

theorem rehang_eq (top root : Ident) (n : Node) : rehang top root n = {
    parent := if n.parent = some top then some root else n.parent
    typeTag := n.typeTag, id := n.id, index := n.index } := by
  rw [rehang, Node.isChildOf]
  by_cases hn : n.parent = some top
  · rw [if_pos (beq_iff_eq.2 hn), if_pos hn]
  · rw [if_neg (beq_iff_eq.not.2 hn), if_neg hn]

/-- **What is left when the top is left out**: the other additions, of which the children of the top
hang under the new root, and the edits of the others. -/
theorem mem_of_omitRoot? (hids : (d.additions.map Node.id).Nodup)
    (htop : d.additions.find? (·.isChildOf place) = some top)
    (h : d.omitRoot? place (some root) = some d') :
    (∀ n, n ∈ d'.additions ↔ ∃ b ∈ d.additions, b.id ≠ top.id ∧ n = rehang top.id root b) ∧
      ∀ e, e ∈ d'.edits ↔ e ∈ d.edits ∧ e.owner ≠ top.id := by
  obtain ⟨before, after, hsplit, hrest⟩ := exists_append_of_find? htop
  have hothers (b : Node) : b ∈ before ++ after ↔ b ∈ d.additions ∧ b.id ≠ top.id := by
    rw [hsplit, List.map_append, List.map_cons, List.nodup_middle, List.nodup_cons,
      ← List.map_append] at hids
    rw [hsplit, List.mem_append, List.mem_append, List.mem_cons]
    constructor
    · intro hb
      refine ⟨hb.imp_right .inr, fun hid => hids.1 ?_⟩
      exact List.mem_map.2 ⟨b, List.mem_append.2 hb, hid⟩
    · rintro ⟨hb | rfl | hb, hne⟩
      · exact .inl hb
      · exact absurd rfl hne
      · exact .inr hb
  rw [omitRoot?, htop, Option.bind_eq_bind, Option.bind_some] at h
  cases h
  constructor
  · intro n
    simp only [hrest, List.mem_map, hothers, and_assoc, @eq_comm _ _ n]
  · intro e
    simp only [List.mem_filter, bne_iff_ne]

end Delta

namespace Comparison

/-! ### The order of what is left -/

/-- Additions that hang under none of the given roots by way of another addition have an order, if the
new snapshot has no cycle. -/
theorem Accounted.exists_order (h : c.Accounted given) (hc : c.isDone = true)
    (hgiven : ∀ r ∈ given, c.delta.adds r = false) (hacyc : c.new.nodes.Acyclic) :
    ∃ l, c.order = .ok l ∧ ParentsFirst l := by
  have hparent : ∀ n ∈ c.delta.additions, ∀ p,
      Ranking.batchParent? (c.delta.additions.map Node.id) c.new.nodes n = some p →
        c.new.nodes.parent? n.id = some p := by
    intro n hn p hp
    obtain ⟨hp, hbatch, -⟩ := Ranking.batchParent?_eq_some_iff.1 hp
    exact h.stays hgiven hn p hp (Delta.adds_eq_true_iff.2 hbatch)
  obtain ⟨l, hl, hperm⟩ := exists_replayOrder_eq_ok_of_parents hacyc hparent
  have hl : c.order = .ok l := by
    cases c with
    | fresh => cases hc
    | failed => cases hc
    | done o n d => exact hl
  refine ⟨l, hl, (h.pairwise_of_order hl).imp_of_mem fun {a b} ha hb hab => ?_⟩
  have hplaced {n : Node} (hn : n ∈ l) : c.Placed n := .inl (h.stays hgiven (hperm.mem_iff.1 hn))
  exact ⟨hab.1 (hplaced ha), hab.2 (hplaced ha) (hplaced hb)⟩

/-! ### Making things -/

open Workspace (State Transaction)

variable {base : State}

/-- **A replay that only makes things** goes through where none of its objects is there before, and every
edit belongs to one of them.  It leaves alone what is there. -/
theorem exists_replay_of_free (hl : c.order = .ok l) (hremovals : c.delta.removals = [])
    (hids : (c.delta.additions.map Node.id).Nodup)
    (hparent : ∀ n ∈ c.delta.additions, ∀ p, n.parent = some p → p.isEmpty = false)
    (hkeys : (c.delta.edits.map Property.key).Nodup)
    (howned : ∀ e ∈ c.delta.edits, c.delta.adds e.owner = true)
    (hfree : ∀ n ∈ c.delta.additions, n.id ∉ base.nodes) (mode : Replay.Mode) :
    ∃ s : State, c.replay mode Workspace.sink ⟨base, none⟩ = (.ok c.delta.tally, ⟨s, none⟩) ∧
      (∀ (id : Ident) (n : Node), s.nodes[id]? = some n ↔
        base.nodes[id]? = some n ∨ n ∈ c.delta.additions ∧ n.id = id) ∧
      (∀ e ∈ c.delta.edits, s.properties[e.key]? = e.stored?) ∧
      ∀ k : Property.Key, (∀ e ∈ c.delta.edits, e.key ≠ k) → s.properties[k]? = base.properties[k]? := by
  have hperm := perm_of_order_eq_ok hl
  obtain ⟨t, ht⟩ : ∃ t, Transaction.run (l.map Node.addition) ⟨base, ∅⟩ = (.ok (), t) :=
    Transaction.exists_run_additions ((hperm.map Node.id).nodup_iff.2 hids)
      fun n hn => hfree n (hperm.mem_iff.1 hn)
  have hstored : l.map Node.stored = l := by
    refine (List.map_congr_left fun n hn => ?_).trans (List.map_id l)
    exact Node.stored_eq_self (hparent n (hperm.mem_iff.1 hn))
  have hgains := Transaction.gains_of_run ht
  rw [hstored] at hgains
  -- the objects of the edits have been added, so that no value is insisted on
  have hready : ∀ e ∈ c.delta.edits, t.Ready mode e := by
    intro e he
    obtain ⟨n, hn, hid⟩ := List.mem_map.1 (Delta.adds_eq_true_iff.1 (howned e he))
    have hn : n ∈ l := hperm.mem_iff.2 hn
    refine ⟨NodeMap.mem_of_getElem?_eq_some ((hgains.nodes e.owner n).2 (.inr ⟨hn, hid⟩)), ?_⟩
    exact fun _ => .inl ((hgains.created e.owner).2 (.inr ⟨n, hn, hid⟩))
  obtain ⟨t', ht'⟩ := (Transaction.exists_run_edits_iff hkeys).2 hready
  have hedits := Transaction.edits_of_run hkeys ht'
  have hcalls : c.delta.calls mode l =
      l.map Node.addition ++ c.delta.edits.map (Property.call mode) := by
    rw [Delta.calls, hremovals]
    rfl
  have hrun : Transaction.run (c.delta.calls mode l) ⟨base, ∅⟩ = (.ok (), t') := by
    rw [hcalls]
    exact Transaction.run_append_eq_ok_iff.2 ⟨t, ht, ht'⟩
  refine ⟨t'.state, ?_, ?_, hedits.set, ?_⟩
  · rw [replay_into_closed, hl]
    simp only [hrun]
  · intro id n
    rw [hedits.nodes, hgains.nodes, hperm.mem_iff]
  · intro k hk
    rw [hedits.other k hk, hgains.properties]

end Comparison

/-! ### The import -/

namespace Workspace.State

/-- A snapshot can be imported into a graph under one of its objects: the properties of the graph belong
to its objects, and none of these is in the snapshot. -/
structure Receives (base : State) (new : Snapshot) (root : Ident) : Prop where
  owned : ∀ (k : Property.Key) (p : Property), base.properties[k]? = some p → k.owner ∈ base.nodes
  free : ∀ id ∈ base.nodes, id ∉ new.objects
  root_mem : root ∈ base.nodes
  root_ne_empty : root.isEmpty = false

/-- What an import makes of a graph.  The objects and the properties that were there are still there; to
them come the objects of the snapshot but for the top, whose children hang under the new root, and the
properties that are not null and do not belong to the top. -/
structure Imported (base : State) (new : Snapshot) (top root : Ident) (s : State) : Prop where
  nodes : ∀ (id : Ident) (n : Node), s.nodes[id]? = some n ↔ base.nodes[id]? = some n ∨
    ∃ a, new.objects[id]? = some a ∧ id ≠ top ∧ n = {
      parent := if a.parent = some top then some root else a.parent
      typeTag := a.typeTag, id := a.id, index := a.index }
  properties : ∀ (k : Property.Key) (p : Property), s.properties[k]? = some p ↔
    base.properties[k]? = some p ∨
    ∃ q, (PropertyMap.ofList new.properties)[k]? = some q ∧ k.owner ≠ top ∧ q.after ≠ .null ∧ p = {
      owner := q.owner, name := q.name, type := q.type
      before := q.after, after := q.after, isEdit := false }

end Workspace.State

/-- A difference that makes a snapshot without its top, with the children of the top under the new
root. -/
structure Delta.Makes (new : Snapshot) (top root : Ident) (d : Delta) : Prop where
  removals : d.removals = []
  additions : ∀ n, n ∈ d.additions ↔
    ∃ a, new.objects[a.id]? = some a ∧ a.id ≠ top ∧ n = rehang top root a
  edits : ∀ e, e ∈ d.edits ↔ ∃ q : Property,
    (PropertyMap.ofList new.properties)[q.key]? = some q ∧ q.owner ≠ top ∧ e = q.creation

namespace Delta.Makes

variable {new : Snapshot} {t r : Ident} {e : Property} {base s : Workspace.State}

theorem adds_iff (h : Makes new t r d) : d.adds x = true ↔ x ∈ new.objects ∧ x ≠ t := by
  rw [adds_eq_true_iff, List.mem_map]
  constructor
  · rintro ⟨n, hn, rfl⟩
    obtain ⟨a, ha, hne, rfl⟩ := (h.additions n).1 hn
    rw [id_rehang]
    exact ⟨NodeMap.mem_of_getElem?_eq_some ha, hne⟩
  · rintro ⟨hx, hne⟩
    obtain ⟨a, ha⟩ := NodeMap.mem_iff_exists.1 hx
    cases NodeMap.filed_ofList new.nodes x a ha
    exact ⟨rehang t r a, (h.additions _).2 ⟨a, ha, hne, rfl⟩, id_rehang t r a⟩

theorem parent_ne_empty (h : Makes new t r d) (hnew : new.Treelike) (hr : r.isEmpty = false)
    (hn : n ∈ d.additions) : ∀ p, n.parent = some p → p.isEmpty = false := by
  obtain ⟨a, ha, -, rfl⟩ := (h.additions n).1 hn
  intro p hp
  rcases parent_rehang t r a with hparent | ⟨-, hparent⟩
  · exact hnew.parent_ne_empty a (NodeMap.mem_of_getElem?_ofList ha) p (hparent ▸ hp)
  · rw [hparent] at hp
    cases hp
    exact hr

theorem adds_owner (h : Makes new t r d) (howned : new.Owned) (he : e ∈ d.edits) :
    d.adds e.owner = true := by
  obtain ⟨q, hq, hne, rfl⟩ := (h.edits e).1 he
  exact h.adds_iff.2 ⟨howned q (PropertyMap.mem_of_getElem?_ofList hq), hne⟩

theorem imported (h : Makes new t r d) (howned : new.Owned) (hbase : base.Receives new r)
    (hnodes : ∀ (id : Ident) (n : Node), s.nodes[id]? = some n ↔
      base.nodes[id]? = some n ∨ n ∈ d.additions ∧ n.id = id)
    (hedited : ∀ e ∈ d.edits, s.properties[e.key]? = e.stored?)
    (hother : ∀ k : Property.Key, (∀ e ∈ d.edits, e.key ≠ k) →
      s.properties[k]? = base.properties[k]?) : base.Imported new t r s := by
  constructor
  · intro id n
    rw [hnodes, h.additions]
    refine or_congr_right ⟨?_, ?_⟩
    · rintro ⟨⟨a, ha, hne, rfl⟩, rfl⟩
      rw [id_rehang]
      exact ⟨a, ha, hne, rehang_eq t r a⟩
    · rintro ⟨a, ha, hne, rfl⟩
      cases NodeMap.filed_ofList new.nodes id a ha
      exact ⟨⟨a, ha, hne, (rehang_eq t r a).symm⟩, rfl⟩
  · intro k p
    by_cases hk : ∃ q, (PropertyMap.ofList new.properties)[k]? = some q ∧ k.owner ≠ t
    · -- the property is set, and the graph had none of this key
      obtain ⟨q, hq, hne⟩ := hk
      have hkey : q.key = k := PropertyMap.filed_ofList new.properties k q hq
      subst hkey
      have hset : s.properties[q.key]? = q.stored? :=
        hedited q.creation ((h.edits _).2 ⟨q, hq, hne, rfl⟩)
      have hfree : base.properties[q.key]? ≠ some p := fun hp =>
        hbase.free _ (hbase.owned q.key p hp) (howned q (PropertyMap.mem_of_getElem?_ofList hq))
      rw [hset, Property.stored?_eq_some_iff, or_iff_right hfree, hq, ← Bool.not_eq_true,
        Value.isNull_iff]
      simp only [Option.some_inj, exists_eq_left', and_iff_right hne]
      rfl
    · push Not at hk
      rw [hother k]
      · refine (or_iff_left ?_).symm
        rintro ⟨q, hq, hne, -⟩
        exact hne (hk q hq)
      · rintro e he rfl
        obtain ⟨q, hq, hne, rfl⟩ := (h.edits e).1 he
        exact hne (hk q hq)

end Delta.Makes

namespace Comparison

theorem exists_omitRoot_of_compare_empty {new : Snapshot} (hplace : new.objects.parent? x = some place)
    (root : Ident) : ∃ top d, new.objects.IsFirstUnder place top ∧ d.Makes new top root ∧
      (done .empty (.ofSnapshot new) (.creation (.ofSnapshot new))).omitRoot place (some root) =
        .ok (true, .done .empty (.ofSnapshot new) d) := by
  have hc : (Catalog.ofSnapshot new).nodes.Filed := NodeMap.filed_ofList new.nodes
  have hp : (Catalog.ofSnapshot new).properties.Filed := PropertyMap.filed_ofList new.properties
  obtain ⟨top, htop, hfirst⟩ := NodeMap.exists_find?_isChildOf hc hplace
  obtain ⟨d, hd⟩ : ∃ d, (Delta.creation (.ofSnapshot new)).omitRoot? place (some root) = some d :=
    Delta.exists_omitRoot?_eq_some htop (some root)
  have hids : ((Delta.creation (.ofSnapshot new)).additions.map Node.id).Nodup :=
    (accounted_of_compare (compare_empty new)).nodup
  obtain ⟨hadditions, hedits⟩ := Delta.mem_of_omitRoot? hids htop hd
  refine ⟨top.id, d, hfirst, ⟨Delta.removals_of_omitRoot? hd, ?_, ?_⟩, ?_⟩
  · intro n
    simp only [hadditions, Delta.mem_additions_creation hc]
    rfl
  · intro e
    rw [hedits, Delta.mem_edits_creation hp]
    constructor
    · rintro ⟨⟨q, hq, rfl⟩, hne⟩
      exact ⟨q, hq, hne, rfl⟩
    · rintro ⟨q, hq, hne, rfl⟩
      exact ⟨⟨q, hq, rfl⟩, hne⟩
  · rw [omitRoot, hd]

/-- **A snapshot is imported under another root.**  Its comparison with nothing succeeds, and the object
with the lowest identifier under the place can be left out.  What is left is added to a graph that
receives it, in either mode, with parents in front of their children. -/
theorem import_under_root (new : Snapshot) (hnew : new.Treelike) (howned : new.Owned)
    (place root : Ident) (hplace : ∃ x, new.objects.parent? x = some place) (w : Workspace)
    (hw : w.pending = none) (hreceives : w.committed.Receives new root) :
    ∃ top c c' l, new.objects.IsFirstUnder place top ∧
      fresh.compare ∅ new = (.ok (), c) ∧ c.omitRoot place (some root) = .ok (true, c') ∧
      (∀ x, c'.delta.adds x = true ↔ x ∈ new.objects ∧ x ≠ top) ∧
      c'.order = .ok l ∧ ParentsFirst l ∧
      ∀ mode, ∃ w', c'.replay mode Workspace.sink w = (.ok c'.delta.tally, w') ∧
        w'.pending = none ∧ w.committed.Imported new top root w'.committed := by
  obtain ⟨base, pending⟩ := w
  cases hw
  obtain ⟨x, hx⟩ := hplace
  have hcompare := compare_empty new
  obtain ⟨top, d, hfirst, hmakes, homit⟩ := exists_omitRoot_of_compare_empty hx root
  have haccounted := (accounted_of_compare hcompare).omitRoot homit
  have hkeys := Derived.nodup_edits (.freed (.compared hcompare) homit)
  have hgiven : ∀ r ∈ [] ++ (some root).toList, d.adds r = false := by
    intro r hr
    cases List.mem_singleton.1 hr
    rw [Bool.eq_false_iff, ne_eq, hmakes.adds_iff]
    exact fun h => hreceives.free root hreceives.root_mem h.1
  obtain ⟨l, hl, hparents⟩ := haccounted.exists_order rfl hgiven hnew.acyclic
  refine ⟨top, _, _, l, hfirst, hcompare, homit, fun x => hmakes.adds_iff, hl, hparents, fun mode => ?_⟩
  have hfree : ∀ n ∈ d.additions, n.id ∉ base.nodes := by
    intro n hn hmem
    refine hreceives.free n.id hmem (hmakes.adds_iff.1 ?_).1
    exact Delta.adds_eq_true_iff.2 (List.mem_map_of_mem hn)
  obtain ⟨s, hreplay, hnodes, hedited, hother⟩ := exists_replay_of_free hl hmakes.removals
    haccounted.nodup (fun n hn => hmakes.parent_ne_empty hnew hreceives.root_ne_empty hn) hkeys
    (fun e he => hmakes.adds_owner howned he) hfree mode
  exact ⟨_, hreplay, rfl, hmakes.imported howned hreceives hnodes hedited hother⟩

/-- Of two objects under the place the one with the lower identifier is left out, whichever is listed
first.  Its children come to hang under an object of the graph; what hangs below them stays there.  Its
property is not imported, and neither is the null. -/
theorem import_under_root_of_two_tops :
    let new : Snapshot := ⟨
      [⟨some ⟨"k"⟩, "T", ⟨"a"⟩, 0⟩, ⟨some ⟨"r"⟩, "T", ⟨"b"⟩, 2⟩, ⟨some ⟨"r"⟩, "T", ⟨"k"⟩, 1⟩,
        ⟨some ⟨"ws"⟩, "T", ⟨"s"⟩, 0⟩, ⟨some ⟨"ws"⟩, "T", ⟨"r"⟩, 0⟩],
      [.point ⟨"r"⟩ "u" .string (.ofText "1"), .point ⟨"a"⟩ "u" .string (.ofText "2"),
        .point ⟨"k"⟩ "u" .string .null]⟩
    let w : Workspace := .ofSnapshot ⟨[⟨some ⟨"ws"⟩, "T", ⟨"n"⟩, 0⟩],
      [.point ⟨"n"⟩ "u" .string (.ofText "3")]⟩
    ∃ c c' l, fresh.compare ∅ new = (.ok (), c) ∧
      c.omitRoot ⟨"ws"⟩ (some ⟨"n"⟩) = .ok (true, c') ∧ c'.order = .ok l ∧ ParentsFirst l ∧
      l = [⟨some ⟨"ws"⟩, "T", ⟨"s"⟩, 0⟩, ⟨some ⟨"n"⟩, "T", ⟨"k"⟩, 1⟩, ⟨some ⟨"n"⟩, "T", ⟨"b"⟩, 2⟩,
        ⟨some ⟨"k"⟩, "T", ⟨"a"⟩, 0⟩] ∧
      ∀ mode, ∃ w', c'.replay mode Workspace.sink w = (.ok c'.delta.tally, w') ∧
        w'.pending = none ∧ w.committed.Imported new ⟨"r"⟩ ⟨"n"⟩ w'.committed ∧
        w'.snapshot = ⟨
          [⟨some ⟨"k"⟩, "T", ⟨"a"⟩, 0⟩, ⟨some ⟨"n"⟩, "T", ⟨"b"⟩, 2⟩, ⟨some ⟨"n"⟩, "T", ⟨"k"⟩, 1⟩,
            ⟨some ⟨"ws"⟩, "T", ⟨"n"⟩, 0⟩, ⟨some ⟨"ws"⟩, "T", ⟨"s"⟩, 0⟩],
          [⟨⟨"a"⟩, "u", .string, .ofText "2", .ofText "2", false⟩,
            ⟨⟨"n"⟩, "u", .string, .ofText "3", .ofText "3", false⟩]⟩ := by
  intro new w
  have hnew : new.Treelike := Snapshot.treelike_of_ofMap (by decide +kernel) rfl
  have howned : new.Owned := by
    rw [Snapshot.Owned]
    decide +kernel
  have hkeys : ∀ k ∈ w.committed.properties.keys, k.owner ∈ w.committed.nodes := by decide +kernel
  have hids : ∀ id ∈ w.committed.nodes.keys, id ∉ new.objects := by decide +kernel
  have hreceives : w.committed.Receives new ⟨"n"⟩ := by
    refine ⟨fun k p hp => hkeys k ?_, fun id hid => hids id (Std.ExtTreeMap.mem_keys.2 hid),
      by decide +kernel, by decide +kernel⟩
    rw [Std.ExtTreeMap.mem_keys, Std.ExtTreeMap.mem_iff_isSome_getElem?, hp]
    rfl
  obtain ⟨top, c, c', l, hfirst, hc, homit, -, hl, hparents, himport⟩ :=
    import_under_root new hnew howned ⟨"ws"⟩ ⟨"n"⟩ ⟨⟨"r"⟩, by decide +kernel⟩ w rfl hreceives
  have htop : ∀ y ∈ new.objects.keys, new.objects.parent? y = some ⟨"ws"⟩ →
      (Ord.compare y ⟨"r"⟩).isLE = true → y = ⟨"r"⟩ := by decide +kernel
  obtain rfl : top = ⟨"r"⟩ := by
    refine htop top (NodeMap.mem_keys_of_parent? top _ hfirst.parent) hfirst.parent ?_
    exact hfirst.least ⟨"r"⟩ (by decide +kernel)
  obtain rfl : c = (fresh.compare ∅ new).2 := congrArg Prod.snd hc.symm
  refine ⟨_, c', l, hc, homit, hl, hparents, ?_, fun mode => ?_⟩
  · have horder : ((fresh.compare ∅ new).2.omitRoot ⟨"ws"⟩ (some ⟨"n"⟩)).bind (fun r => r.2.order) =
        .ok l := by
      rw [homit]
      exact hl
    exact Except.ok.inj (horder.symm.trans (by decide +kernel))
  · obtain ⟨w', hreplay, hpending, himported⟩ := himport mode
    have hread : ((fresh.compare ∅ new).2.omitRoot ⟨"ws"⟩ (some ⟨"n"⟩)).map
        (fun r => (r.2.replay mode Workspace.sink w).2.snapshot) = .ok w'.snapshot := by
      rw [homit, Except.map, hreplay]
    refine ⟨w', hreplay, hpending, himported, Except.ok.inj (hread.symm.trans ?_)⟩
    cases mode <;> decide +kernel

end Comparison

end GraphDelta
