/-
**Snapshots that are collected again.**

The difference from nothing to a snapshot, replayed into a capture, collects the snapshot: of several
records of one identifier or key the last one, and of a property the value after.  Nulls stay, and so do
properties without an object and objects without their parent.  The objects are collected in the order
in which they were made, so that parents come in front of their children.

Main definitions:

* `lastOf` — the last item of every key;
* `Snapshot.condensed` — a snapshot without the records that others replace.

Main results:

* `mem_lastOf`, `nodup_map_lastOf`, `perm_lastOf` — what is last is what a map files;
* `stableSort_eq_of_perm` — where keys tell items apart, sorting by them forgets the order;
* `Comparison.replay_collects` — **a snapshot is collected again** from the calls that make it.
-/
import GraphDelta.Proofs.Creation
import GraphDelta.Proofs.Depth
import GraphDelta.Proofs.Normalization
import GraphDelta.Proofs.Strict

set_option autoImplicit false

namespace GraphDelta

/-! ### The last item of every key -/

section

variable {α κ : Type} [DecidableEq κ] {key : α → κ} {l : List α}

/-- The list without the items that have the key of a later one. -/
def lastOf (key : α → κ) : List α → List α
  | [] => []
  | a :: l => if key a ∈ l.map key then lastOf key l else a :: lastOf key l

theorem lastOf_sublist (key : α → κ) (l : List α) : (lastOf key l).Sublist l := by
  induction l with
  | nil => exact .slnil
  | cons a l ih =>
      rw [lastOf]
      split
      · exact ih.cons a
      · exact ih.cons_cons a

theorem nodup_map_lastOf (key : α → κ) (l : List α) : ((lastOf key l).map key).Nodup := by
  induction l with
  | nil => exact .nil
  | cons a l ih =>
      rw [lastOf]
      split
      · exact ih
      · rename_i ha
        exact List.nodup_cons.2 ⟨fun h => ha (((lastOf_sublist key l).map key).mem h), ih⟩

theorem mem_lastOf {a : α} : a ∈ lastOf key l ↔ (l.filter (key · = key a)).getLast? = some a := by
  induction l with
  | nil => exact iff_of_false List.not_mem_nil (by simp)
  | cons b l ih =>
      have hnil : l.filter (key · = key b) = [] ↔ key b ∉ l.map key := by
        simp [List.filter_eq_nil_iff]
      rw [lastOf, List.filter_cons]
      by_cases hba : key b = key a
      · rw [if_pos (decide_eq_true hba), List.getLast?_cons, ← hba]
        rw [← hba] at ih
        split
        · rename_i hb
          rw [ih]
          cases hlast : (l.filter (key · = key b)).getLast? with
          | none => exact absurd (List.getLast?_eq_none_iff.1 hlast) (hnil.not.2 (not_not.2 hb))
          | some c => rfl
        · rename_i hb
          rw [hnil.2 hb] at ih ⊢
          rw [List.mem_cons, ih, List.getLast?_nil]
          simp [eq_comm]
      · rw [if_neg (decide_eq_true_iff.not.2 hba)]
        split
        · exact ih
        · rw [List.mem_cons, ih]
          exact or_iff_right fun hab => hba (congrArg key hab.symm)

variable [Ord κ] [Std.TransOrd κ] [Std.LawfulEqOrd κ]

/-- What a map lists, if it files the last item of every key. -/
theorem perm_lastOf {m : Std.ExtTreeMap κ α} (hm : ∀ k, m[k]? = (l.filter (key · = k)).getLast?) :
    (m.toList.map Prod.snd).Perm (lastOf key l) := by
  have hkey (k : κ) (a : α) (h : m[k]? = some a) : key a = k := by
    rw [hm] at h
    exact of_decide_eq_true (List.mem_filter.1 (List.mem_of_getLast? h)).2
  have hnodup : ((m.toList.map Prod.snd).map key).Nodup := by
    rw [map_key_snd_toList hkey]
    exact Std.ExtTreeMap.nodup_keys
  refine (List.perm_ext_iff_of_nodup hnodup.of_map (nodup_map_lastOf key l).of_map).2 fun a => ?_
  rw [mem_map_snd_toList hkey, hm, mem_lastOf]

omit [DecidableEq κ] in
/-- Where every key occurs once, sorting by keys forgets the order. -/
theorem stableSort_eq_of_perm {l' : List α} (h : l.Perm l') (hnodup : (l.map key).Nodup) :
    stableSort (fun a b => (compare (key a) (key b)).isLE) l =
      stableSort (fun a b => (compare (key a) (key b)).isLE) l' := by
  have hperm := stableSort_perm (fun a b => (compare (key a) (key b)).isLE)
  have hsorted (l : List α) : (stableSort (fun a b => (compare (key a) (key b)).isLE) l).Pairwise
      fun a b => (compareOn key a b).isLE = true := pairwise_stableSort_isLE l
  refine List.Perm.eq_of_pairwise ?_ (hsorted l) (hsorted l')
    ((hperm l).trans (h.trans (hperm l').symm))
  intro a b ha hb hab hba
  have hkey : key a = key b := Std.LawfulEqOrd.eq_of_compare (Std.OrientedCmp.isLE_antisymm hab hba)
  exact List.inj_on_of_nodup_map hnodup (mem_stableSort.1 ha)
    (h.mem_iff.2 (mem_stableSort.1 hb)) hkey

end

/-! ### Condensed snapshots -/

/-- The snapshot with one record for every identifier and every key, the last one of each, and with the
value after of every property at a point in time. -/
def Snapshot.condensed (s : Snapshot) : Snapshot where
  nodes := lastOf Node.id s.nodes
  properties := (lastOf Property.key s.properties).map fun p => {
    owner := p.owner, name := p.name, type := p.type
    before := p.after, after := p.after, isEdit := false }

theorem Snapshot.perm_nodes_condensed (s : Snapshot) : s.objects.nodes.Perm s.condensed.nodes :=
  perm_lastOf (NodeMap.getElem?_ofList s.nodes)

theorem Snapshot.perm_properties_condensed (s : Snapshot) :
    ((PropertyMap.ofList s.properties).properties.map Property.outcome).Perm
      s.condensed.properties :=
  (perm_lastOf (PropertyMap.getElem?_ofList s.properties)).map Property.outcome

/-- Whatever order the records of a condensed snapshot are listed in, it has one normal form. -/
theorem Snapshot.normalized_eq_condensed {s e : Snapshot} (hnodes : e.nodes.Perm s.condensed.nodes)
    (hproperties : e.properties.Perm s.condensed.properties) :
    e.normalized = s.condensed.normalized := by
  have hids : (e.nodes.map Node.id).Nodup :=
    (hnodes.map Node.id).nodup_iff.2 (nodup_map_lastOf Node.id s.nodes)
  have hkeys : (e.properties.map Property.key).Nodup := by
    refine (hproperties.map Property.key).nodup_iff.2 ?_
    rw [condensed, List.map_map]
    exact nodup_map_lastOf Property.key s.properties
  rw [normalized, normalized, stableSort_eq_of_perm hnodes hids,
    stableSort_eq_of_perm hproperties hkeys]

/-! ### Collecting a snapshot -/

/-- What an edit comes to does not depend on the value before. -/
theorem Property.outcome_creation (p : Property) : p.creation.outcome = p.outcome := rfl

namespace Comparison

/-- Where nothing is removed, a capture collects the additions in their order, and what the edits come
to. -/
theorem replay_into_capture {c : Comparison} {l : List Node} (hl : c.order = .ok l)
    (hremovals : c.delta.removals = [])
    (hparent : ∀ n ∈ l, ∀ p, n.parent = some p → p.isEmpty = false) (mode : Replay.Mode) :
    c.replay mode Capture.sink .empty =
      (.ok c.delta.tally, ⟨l, c.delta.edits.map Property.outcome⟩) := by
  have hcalls : c.delta.calls mode l =
      l.map Node.addition ++ c.delta.edits.map (Property.call mode) := by
    rw [Delta.calls, hremovals]
    rfl
  have hsend : Capture.sink.send (c.delta.calls mode l ++ [.commit]) .empty =
      (.ok (), ⟨l, c.delta.edits.map Property.outcome⟩) := by
    rw [hcalls]
    simp only [Sink.send_append, Workspace.send_additions_capture hparent,
      Workspace.send_edits_capture]
    rfl
  have hbegin : Capture.sink .begin .empty = (.ok (), .empty) := rfl
  rw [replay, hl]
  simp only [hbegin, hsend]

/-- **A snapshot is collected again** from the calls that make it, in either mode.  The capture holds the
records of the condensed snapshot, and lists parents in front of their children. -/
theorem replay_collects (s : Snapshot) (h : s.Treelike) :
    ∃ c, fresh.compare ∅ s = (.ok (), c) ∧ ∀ mode, ∃ e : Snapshot,
      c.replay mode Capture.sink .empty = (.ok ⟨0, e.nodes.length, e.properties.length⟩, e) ∧
      e.normalized = s.condensed.normalized ∧
      ∀ n ∈ e.nodes, ∀ p ∈ e.nodes, n.parent = some p.id → [p, n].Sublist e.nodes := by
  refine ⟨_, compare_empty s, fun mode => ?_⟩
  have hadd : ∀ n ∈ s.objects.nodes, s.objects[n.id]? = some n :=
    fun n => (mem_map_snd_toList (NodeMap.filed_ofList s.nodes)).1
  obtain ⟨l, hl, hperm⟩ := exists_replayOrder_eq_ok h.acyclic hadd
  have hparent : ∀ n ∈ l, ∀ p, n.parent = some p → p.isEmpty = false := fun n hn =>
    h.parent_ne_empty n (NodeMap.mem_of_getElem?_ofList (hadd n (hperm.mem_iff.1 hn)))
  have hedits : (Delta.creation (.ofSnapshot s)).edits.map Property.outcome =
      (PropertyMap.ofList s.properties).properties.map Property.outcome :=
    List.map_map.trans (List.map_congr_left fun p _ => p.outcome_creation)
  have horder : (done .empty (.ofSnapshot s) (.creation (.ofSnapshot s))).order = .ok l := hl
  refine ⟨⟨l, (Delta.creation (.ofSnapshot s)).edits.map Property.outcome⟩, ?_, ?_, ?_⟩
  · rw [replay_into_capture horder rfl hparent mode, List.length_map, hperm.length_eq]
    rfl
  · refine Snapshot.normalized_eq_condensed (hperm.trans s.perm_nodes_condensed) ?_
    exact hedits ▸ s.perm_properties_condensed
  · intro n hn p hp hnp
    obtain ⟨before, after, hsplit⟩ := List.append_of_mem hn
    have hbefore : p ∈ before :=
      parent_mem_of_replayOrder hadd hl hsplit (hperm.mem_iff.1 hp) hnp
    have hsub : [p, n].Sublist (before ++ n :: after) :=
      (List.singleton_sublist.2 hbefore).append (List.singleton_sublist.2 List.mem_cons_self)
    exact hsplit ▸ hsub

/-- Of two records of `a`, and of two of its property, the last one is collected, with the value after.
The null stays, and so do the property without an object and the object without its parent. -/
theorem replay_collects_last_records :
    let s : Snapshot := ⟨
      [⟨some ⟨"x"⟩, "T", ⟨"a"⟩, 0⟩, ⟨some ⟨"a"⟩, "T", ⟨"b"⟩, 1⟩, ⟨some ⟨"z"⟩, "T", ⟨"c"⟩, 2⟩,
        ⟨some ⟨"c"⟩, "T", ⟨"a"⟩, 3⟩],
      [.point ⟨"a"⟩ "u" .string (.ofText "1"), .point ⟨"y"⟩ "u" .long .null,
        .edit ⟨"a"⟩ "u" .string (.ofText "2") (.ofText "3")]⟩
    ∃ c, fresh.compare ∅ s = (.ok (), c) ∧ ∀ mode, ∃ e : Snapshot,
      c.replay mode Capture.sink .empty = (.ok ⟨0, e.nodes.length, e.properties.length⟩, e) ∧
      e.normalized = ⟨
        [⟨some ⟨"c"⟩, "T", ⟨"a"⟩, 3⟩, ⟨some ⟨"a"⟩, "T", ⟨"b"⟩, 1⟩, ⟨some ⟨"z"⟩, "T", ⟨"c"⟩, 2⟩],
        [⟨⟨"a"⟩, "u", .string, .ofText "3", .ofText "3", false⟩,
          ⟨⟨"y"⟩, "u", .long, .null, .null, false⟩]⟩ ∧
      ∀ n ∈ e.nodes, ∀ p ∈ e.nodes, n.parent = some p.id → [p, n].Sublist e.nodes := by
  intro s
  have hs : s.Treelike := Snapshot.treelike_of_ofMap (by decide +kernel) rfl
  obtain ⟨c, hc, hcollects⟩ := replay_collects s hs
  refine ⟨c, hc, fun mode => ?_⟩
  obtain ⟨e, hreplay, hnormal, hparents⟩ := hcollects mode
  exact ⟨e, hreplay, hnormal.trans (by decide +kernel), hparents⟩

end Comparison

end GraphDelta
