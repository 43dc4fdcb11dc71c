/-
**Normal snapshots.**

An export to a capture turns a snapshot into a normal one: every object and every property once, no
nulls, siblings in order, and parents in front of their children as far as parents do not run in a
cycle.  The order of the objects is a matter of the graph alone, and not of the snapshot that it was
loaded from.  So the normal snapshot describes the same graph, and is its own normal form.

The depth of an object is the number of present ancestors above it.  It is counted up to a bound only,
for the sake of cycles, but a chain of parents that ends is never long enough to meet the bound; what
goes on elsewhere in the graph does not matter.

Main definitions:

* `Workspace.State.Listed` — a snapshot lists a graph in normal form.

Main results:

* `Workspace.State.depth_eq_succ` — the bound cuts nothing off where parents end;
* `Workspace.State.pairwise_exported` — **the order of an export**;
* `Workspace.State.Listed.ofSnapshot_eq` — a normal snapshot makes the graph that it lists;
* `Workspace.exportTo_capture` — what a capture collects;
* `Workspace.export_normalizes` — **an export to a capture makes a snapshot normal**.
-/
import GraphDelta.Proofs.Export
import GraphDelta.Proofs.Reordering
import GraphDelta.Sink.Capture

set_option autoImplicit false

namespace GraphDelta

variable {x y : Ident} {n p : Node} {j k : Nat}

/-! ### Lists -/

/-- Of two items of a list one comes before the other. -/
theorem sublist_or_sublist {α : Type} {l : List α} {a b : α} (ha : a ∈ l) (hb : b ∈ l)
    (hne : a ≠ b) : [a, b].Sublist l ∨ [b, a].Sublist l := by
  induction l with
  | nil => cases ha
  | cons c l ih =>
      rcases List.mem_cons.1 ha with rfl | hal
      · have hbl : b ∈ l := (List.mem_cons.1 hb).resolve_left hne.symm
        exact .inl ((List.singleton_sublist.2 hbl).cons_cons a)
      · rcases List.mem_cons.1 hb with rfl | hbl
        · exact .inr ((List.singleton_sublist.2 hal).cons_cons b)
        · exact (ih hal hbl).imp (.cons c) (.cons c)

/-- Where every key occurs once, the last item of a key is the one that has it. -/
theorem getLast?_filter_eq_some_iff {α κ : Type} [DecidableEq κ] {key : α → κ} {l : List α}
    (hl : (l.map key).Nodup) {k : κ} {a : α} :
    (l.filter (key · = k)).getLast? = some a ↔ a ∈ l ∧ key a = k := by
  have hmem {b : α} (hb : b ∈ l.filter (key · = k)) : b ∈ l ∧ key b = k := by
    rw [List.mem_filter] at hb
    exact ⟨hb.1, of_decide_eq_true hb.2⟩
  constructor
  · intro h
    exact hmem (List.mem_of_getLast? h)
  · rintro ⟨ha, hk⟩
    have hfilter : a ∈ l.filter (key · = k) := List.mem_filter.2 ⟨ha, decide_eq_true hk⟩
    cases hlast : (l.filter (key · = k)).getLast? with
    | none =>
        rw [List.getLast?_eq_none_iff] at hlast
        rw [hlast] at hfilter
        cases hfilter
    | some b =>
        obtain ⟨hb, hkb⟩ := hmem (List.mem_of_getLast? hlast)
        rw [List.inj_on_of_nodup_map hl hb ha (hkb.trans hk.symm)]

namespace NodeMap

variable {m : NodeMap}

theorem presentParent?_eq (hn : m[n.id]? = some n) :
    m.presentParent? n.id = n.parent.filter (m.contains ·) := by
  rw [presentParent?, parent?, hn]
  rfl

end NodeMap

namespace Workspace

namespace State

variable {s : State}

/-! ### Depths -/

/-- A count that reaches the top before it meets its bound is the distance of the top. -/
theorem ancestors_eq (h : follow s.nodes.presentParent? k x = some y)
    (hy : s.nodes.presentParent? y = none) (hk : k < j) : s.ancestors j x = k := by
  obtain ⟨j, rfl⟩ : ∃ i, j = i + 1 := ⟨j - 1, by omega⟩
  induction k generalizing j x with
  | zero =>
      cases h
      rw [ancestors, hy]
  | succ k ih =>
      obtain ⟨a, ha, hay⟩ := Option.bind_eq_some_iff.1 h
      obtain ⟨i, rfl⟩ : ∃ i, j = i + 1 := ⟨j - 1, by omega⟩
      rw [ancestors, ha]
      exact congrArg (· + 1) (ih hay i (by omega))

theorem exists_top (hx : x ∈ s.nodes) (hends : Ends s.nodes.parent? x) :
    ∃ k < s.nodes.size, ∃ top, follow s.nodes.presentParent? k x = some top ∧
      s.nodes.presentParent? top = none := by
  have hends : Ends s.nodes.presentParent? x :=
    hends.mono fun a b h => (NodeMap.presentParent?_eq_some_iff.1 h).1
  obtain ⟨top, hlead, -, hlast⟩ := hends.exists_last (p := fun _ => True) trivial
  have htop : s.nodes.presentParent? top = none := by
    refine Option.eq_none_iff_forall_ne_some.2 fun a ha => ?_
    exact hlast a (.single ha) trivial
  have hmem : top ∈ s.nodes := NodeMap.mem_of_leads_presentParent? hlead hx
  have hkeys (a b : Ident) (h : s.nodes.presentParent? a = some b) : a ∈ s.nodes.keys :=
    NodeMap.mem_keys_of_parent? a b (NodeMap.presentParent?_eq_some_iff.1 h).1
  obtain ⟨k, hk, hkt⟩ := hlead.exists_lt hkeys (Std.ExtTreeMap.mem_keys.2 hmem)
  rw [Std.ExtTreeMap.length_keys] at hk
  exact ⟨k, hk, top, hkt, htop⟩

/-- The bound cuts nothing off where parents end: an object is one deeper than its parent there. -/
theorem depth_eq_succ (hends : Ends s.nodes.parent? x) (hp : s.nodes.presentParent? x = some y) :
    s.depth x = s.depth y + 1 := by
  obtain ⟨hparent, hy⟩ := NodeMap.presentParent?_eq_some_iff.1 hp
  have hends' : Ends s.nodes.parent? y := hends.leads (.single hparent)
  obtain ⟨k, hk, top, hkt, htop⟩ := exists_top hy hends'
  have hxt : follow s.nodes.presentParent? (k + 1) x = some top := by
    rw [follow_succ, hp]
    exact hkt
  rw [depth, depth, ancestors_eq hkt htop (by omega), ancestors_eq hxt htop (by omega)]

/-- Siblings are equally deep, whatever their parents do. -/
theorem depth_eq_of_parent_eq (hn : s.nodes[n.id]? = some n) (hp : s.nodes[p.id]? = some p)
    (h : n.parent = p.parent) : s.depth n.id = s.depth p.id := by
  rw [depth, depth, ancestors, ancestors, NodeMap.presentParent?_eq hn, NodeMap.presentParent?_eq hp,
    h]

/-! ### The order of an export -/

instance : Std.TransCmp exportOrder :=
  inferInstanceAs (Std.TransCmp (compareLex (compareOn Prod.fst)
    (compareLex (compareOn fun a : Nat × Node => a.2.parent)
      (compareLex (compareOn fun a : Nat × Node => a.2.index.toInt)
        (compareOn fun a : Nat × Node => a.2.id)))))

/-- What comes first in an export is less deep, and has the lower place if it is a sibling, or the same
place and the lower identifier. -/
theorem of_exportOrder_isLE {a b : Node}
    (h : (exportOrder (s.depth a.id, a) (s.depth b.id, b)).isLE = true) :
    s.depth a.id ≤ s.depth b.id ∧ (s.depth a.id = s.depth b.id → a.parent = b.parent → a.id ≠ b.id →
      a.index < b.index ∨ a.index = b.index ∧ compare a.id b.id = .lt) := by
  simp only [exportOrder, Ordering.isLE_then_iff_or, Std.compare_eq_lt,
    Std.LawfulEqOrd.compare_eq_iff_eq, Int32.toInt_inj, ← Int32.lt_iff_toInt_lt] at h
  constructor
  · rcases h with h | h
    · exact Nat.le_of_lt h
    · exact Nat.le_of_eq h.1
  · intro hdepth hparent hne
    rcases h with h | ⟨-, h | ⟨-, h | ⟨hindex, h⟩⟩⟩
    · exact absurd hdepth (Nat.ne_of_lt h)
    · rw [hparent, Std.ReflOrd.compare_self] at h
      cases h
    · exact .inl h
    · refine .inr ⟨hindex, (Ordering.isLE_iff_eq_lt_or_eq_eq.1 h).resolve_right fun heq => ?_⟩
      exact hne (Std.LawfulEqOrd.eq_of_compare heq)

/-- **The order of an export**: by depth, and siblings by their places and identifiers. -/
theorem pairwise_exported (hs : s.Recorded) : s.exported.Pairwise fun a b =>
    s.depth a.id ≤ s.depth b.id ∧
    (a.parent = b.parent → a.index < b.index ∨ a.index = b.index ∧ compare a.id b.id = .lt) := by
  have hsorted : s.exported.Pairwise fun a b =>
      (exportOrder (s.depth a.id, a) (s.depth b.id, b)).isLE = true := by
    refine List.pairwise_map.2 ((pairwise_stableSort_isLE _).imp_of_mem ?_)
    have hdepth {a : Nat × Node} (ha : a ∈ stableSort (fun a b => (exportOrder a b).isLE)
        (s.nodes.nodes.map fun n => (s.depth n.id, n))) : (s.depth a.2.id, a.2) = a := by
      obtain ⟨n, -, rfl⟩ := List.mem_map.1 (mem_stableSort.1 ha)
      rfl
    intro a b ha hb hab
    rw [hdepth ha, hdepth hb]
    exact hab
  have hdistinct : s.exported.Pairwise fun a b => a.id ≠ b.id := List.pairwise_map.1 (nodup_exported hs)
  refine (hsorted.and hdistinct).imp_of_mem ?_
  rintro a b ha hb ⟨hle, hne⟩
  obtain ⟨hdepth, hsibling⟩ := of_exportOrder_isLE hle
  refine ⟨hdepth, fun hparent => hsibling ?_ hparent hne⟩
  exact depth_eq_of_parent_eq ((mem_exported hs).1 ha) ((mem_exported hs).1 hb) hparent

/-! ### The normal form of a graph -/

/-- A snapshot lists a graph in normal form: the objects and the properties of the graph, each of them
once, siblings in the order of their places and identifiers, and objects whose ancestors do not run in a
cycle after their parents. -/
structure Listed (s : State) (e : Snapshot) : Prop where
  nodup_nodes : (e.nodes.map Node.id).Nodup
  nodes : ∀ (id : Ident) (n : Node), s.nodes[id]? = some n ↔ n ∈ e.nodes ∧ n.id = id
  nodup_properties : (e.properties.map Property.key).Nodup
  properties : ∀ (k : Property.Key) (p : Property),
    s.properties[k]? = some p ↔ p ∈ e.properties ∧ p.key = k
  isNull_eq : ∀ p ∈ e.properties, p.after.isNull = false
  siblings : e.nodes.Pairwise fun a b =>
    a.parent = b.parent → a.index < b.index ∨ a.index = b.index ∧ compare a.id b.id = .lt
  parents : ∀ n ∈ e.nodes, Ends s.nodes.parent? n.id →
    ∀ p ∈ e.nodes, n.parent = some p.id → [p, n].Sublist e.nodes

/-- Parents come before their children, as far as they do not run in a cycle. -/
theorem sublist_exported (hs : s.Recorded) (hn : n ∈ s.exported) (hends : Ends s.nodes.parent? n.id)
    (hp : p ∈ s.exported) (h : n.parent = some p.id) : [p, n].Sublist s.exported := by
  have hparent : s.nodes.presentParent? n.id = some p.id := by
    have hmem : p.id ∈ s.nodes := NodeMap.mem_of_getElem?_eq_some ((mem_exported hs).1 hp)
    rw [NodeMap.presentParent?_eq ((mem_exported hs).1 hn), h]
    exact Option.filter_eq_some_iff.2 ⟨rfl, Std.ExtTreeMap.mem_iff_contains.1 hmem⟩
  have hdepth := depth_eq_succ hends hparent
  have hne : p ≠ n := by
    rintro rfl
    omega
  refine (sublist_or_sublist hp hn hne).resolve_right fun hnp => ?_
  have hle := (List.pairwise_iff_forall_sublist.1 (pairwise_exported hs) hnp).1
  omega

theorem listed_exported (hs : s.Recorded) : s.Listed ⟨s.exported, s.properties.properties⟩ where
  nodup_nodes := nodup_exported hs
  nodes id n := by
    rw [mem_exported hs]
    constructor
    · intro h
      have hid := hs.nodes id n h
      exact ⟨hid.symm ▸ h, hid⟩
    · rintro ⟨h, rfl⟩
      exact h
  nodup_properties := nodup_properties hs
  properties k p := by
    rw [mem_properties hs]
    constructor
    · intro h
      have hk := hs.properties k p h
      exact ⟨hk.symm ▸ h, hk⟩
    · rintro ⟨h, rfl⟩
      exact h
  isNull_eq p hp := hs.isNull_eq p.key p ((mem_properties hs).1 hp)
  siblings := (pairwise_exported hs).imp And.right
  parents n hn hends p hp h := sublist_exported hs hn hends hp h

theorem Listed.ofSnapshot_eq {e : Snapshot} (h : s.Listed e) (hs : s.Recorded) :
    ofSnapshot e = s := by
  have hnodes : (ofSnapshot e).nodes = s.nodes := by
    refine Std.ExtTreeMap.ext_getElem? fun id => Option.ext fun n => ?_
    rw [nodes_ofSnapshot, NodeMap.getElem?_ofList, getLast?_filter_eq_some_iff h.nodup_nodes, h.nodes]
  have hproperties : (ofSnapshot e).properties = s.properties := by
    refine Std.ExtTreeMap.ext_getElem? fun k => Option.ext fun p => ?_
    rw [getElem?_properties_ofSnapshot, PropertyMap.getElem?_ofList, Option.bind_eq_some_iff,
      h.properties]
    simp only [getLast?_filter_eq_some_iff h.nodup_properties]
    constructor
    · rintro ⟨q, hq, hqp⟩
      rw [hs.stored?_eq ((h.properties k q).2 hq)] at hqp
      cases hqp
      exact hq
    · intro hp
      exact ⟨p, hp, hs.stored?_eq ((h.properties k p).2 hp)⟩
  cases hE : ofSnapshot e
  cases s
  rw [hE] at hnodes hproperties
  cases hnodes
  cases hproperties
  rfl

end State

/-! ### What a capture collects -/

variable {s : State}

theorem send_additions_capture {ns : List Node}
    (hns : ∀ n ∈ ns, ∀ p, n.parent = some p → p.isEmpty = false) (c : Capture) :
    Capture.sink.send (ns.map Node.addition) c = (.ok (), { c with nodes := c.nodes ++ ns }) := by
  induction ns generalizing c with
  | nil => rw [List.append_nil]; rfl
  | cons n ns ih =>
      have hn : Capture.sink n.addition c = (.ok (), { c with nodes := c.nodes ++ [n] }) := by
        have hkept : Node.make n.parent n.typeTag n.id n.index = n :=
          n.make_eq_stored.trans (Node.stored_eq_self (hns n List.mem_cons_self))
        change (_, { c with nodes := c.nodes ++ [Node.make n.parent n.typeTag n.id n.index] }) = _
        rw [hkept]
      rw [List.map_cons, Sink.send, hn]
      simp only [ih fun m hm => hns m (List.mem_cons_of_mem n hm), List.append_assoc,
        List.singleton_append]

/-- A capture records the value after an edit, whatever the value before is and whether it is sent. -/
theorem send_edits_capture (mode : Replay.Mode) (ps : List Property) (c : Capture) :
    Capture.sink.send (ps.map (Property.call mode)) c =
      (.ok (), { c with properties := c.properties ++ ps.map Property.outcome }) := by
  induction ps generalizing c with
  | nil => rw [List.map_nil, List.map_nil, List.append_nil]; rfl
  | cons p ps ih =>
      have hp : Capture.sink (p.call mode) c =
          (.ok (), { c with properties := c.properties ++ [p.outcome] }) := by
        cases mode <;> rfl
      rw [List.map_cons, Sink.send, hp]
      simp only [ih, List.append_assoc, List.map_cons, List.singleton_append]

/-- An export to a capture goes through, and the capture collects the graph in the order of the
export. -/
theorem exportTo_capture {w : Workspace} (hw : w.committed.Recorded)
    (hparent : ∀ n ∈ w.committed.exported, ∀ p, n.parent = some p → p.isEmpty = false) :
    w.exportTo Capture.sink .empty =
      (.ok (), ⟨w.committed.exported, w.committed.properties.properties⟩) := by
  have hpoint : w.committed.properties.properties.map Property.outcome =
      w.committed.properties.properties := by
    refine (List.map_congr_left fun p hp => ?_).trans (List.map_id _)
    obtain ⟨hvalue, hedit⟩ := hw.point p.key p ((State.mem_properties hw).1 hp)
    exact Property.point_eq_self hvalue hedit
  have hbegin : Capture.sink .begin .empty = (.ok (), .empty) := rfl
  rw [exportTo, State.exportCalls_eq, State.exportChanges, List.cons_append, Sink.send, hbegin]
  simp only [Sink.send_append, send_additions_capture hparent, send_edits_capture, hpoint]
  rfl

/-- **An export to a capture makes a snapshot normal.**  It goes through, and what it collects lists the
loaded graph in normal form, describes the same graph, and is collected again from that. -/
theorem export_normalizes (s : Snapshot)
    (hs : ∀ n ∈ s.nodes, ∀ p, n.parent = some p → p.isEmpty = false) :
    let w := ofSnapshot s
    ∃ e : Snapshot, w.exportTo Capture.sink .empty = (.ok (), e) ∧ w.committed.Listed e ∧
      (ofSnapshot e).snapshot = w.snapshot ∧
      (ofSnapshot e).exportTo Capture.sink .empty = (.ok (), e) := by
  intro w
  have hw : w.committed.Recorded := State.recorded_ofSnapshot s
  have hparent : ∀ n ∈ w.committed.exported, ∀ p, n.parent = some p → p.isEmpty = false := by
    intro n hn
    have hn : (State.ofSnapshot s).nodes[n.id]? = some n := (State.mem_exported hw).1 hn
    rw [State.nodes_ofSnapshot] at hn
    exact hs n (NodeMap.mem_of_getElem?_ofList hn)
  have hexport := exportTo_capture hw hparent
  have hlisted := State.listed_exported hw
  have hsame : ofSnapshot ⟨w.committed.exported, w.committed.properties.properties⟩ = w :=
    congrArg (Workspace.mk · none) (hlisted.ofSnapshot_eq hw)
  refine ⟨_, hexport, hlisted, ?_, ?_⟩
  · rw [hsame]
  · rw [hsame, hexport]

/-- Of two records of `a` the last one is kept; `b` and `c` are each other's parents, and the parent of
`d` is missing.  The null and the property that it replaces are gone; the one without an owner stays. -/
theorem export_normalizes_cycle :
    let s : Snapshot := ⟨
      [⟨some ⟨"d"⟩, "T", ⟨"e"⟩, 1⟩, ⟨some ⟨"c"⟩, "T", ⟨"b"⟩, 0⟩, ⟨some ⟨"b"⟩, "T", ⟨"a"⟩, 0⟩,
        ⟨some ⟨"b"⟩, "T", ⟨"c"⟩, 0⟩, ⟨some ⟨"x"⟩, "T", ⟨"d"⟩, 7⟩, ⟨some ⟨"d"⟩, "T", ⟨"a"⟩, 1⟩],
      [.point ⟨"x"⟩ "n" .string (.ofText ""), .point ⟨"a"⟩ "n" .string (.ofText "2"),
        .point ⟨"a"⟩ "n" .string .null]⟩
    ∃ e : Snapshot, (ofSnapshot s).exportTo Capture.sink .empty = (.ok (), e) ∧
      (ofSnapshot s).committed.Listed e ∧
      e = ⟨[⟨some ⟨"x"⟩, "T", ⟨"d"⟩, 7⟩, ⟨some ⟨"d"⟩, "T", ⟨"a"⟩, 1⟩, ⟨some ⟨"d"⟩, "T", ⟨"e"⟩, 1⟩,
          ⟨some ⟨"b"⟩, "T", ⟨"c"⟩, 0⟩, ⟨some ⟨"c"⟩, "T", ⟨"b"⟩, 0⟩],
        [⟨⟨"x"⟩, "n", .string, .ofText "", .ofText "", false⟩]⟩ ∧
      (ofSnapshot e).exportTo Capture.sink .empty = (.ok (), e) := by
  intro s
  have hparents : ∀ n ∈ s.nodes, ∀ p ∈ n.parent, p.isEmpty = false := by decide +kernel
  obtain ⟨e, hexport, hlisted, -, hagain⟩ := export_normalizes s hparents
  have he : ((ofSnapshot s).exportTo Capture.sink .empty).2 = e := by rw [hexport]
  refine ⟨e, hexport, hlisted, ?_, hagain⟩
  rw [← he]
  decide +kernel

end Workspace

end GraphDelta
