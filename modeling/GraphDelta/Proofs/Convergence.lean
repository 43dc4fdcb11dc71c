/-
**A replay into the old graph makes the new one.**

Let the objects of two snapshots form trees, let every property belong to an object, and let no object
stay in its place under a parent that comes or goes.  The removals then take exactly those kept objects
that the additions bring back, so that no addition meets an object that is still there, and nothing
that stays is lost.  A property is set again where its object was taken, and else only where its value
changes, so that the value that an edit insists on is always the current one.

Main definitions:

* `Snapshot.Compatible` — what is asked of the two snapshots;
* `Workspace.Transaction.Midway` — the transaction of such a replay between the additions and the
  edits.

Main results:

* `Delta.getElem?_new_iff` — the new objects are those that are not taken and those that are added;
* `Workspace.Transaction.exists_midway` — **the removals and the additions go through**, and leave the
  new objects;
* `Workspace.Transaction.Midway.exists_run_edits` — **the edits go through**, and leave the new values;
* `Comparison.replay_converges` — **a replay into the old graph makes the new one**.
-/
import GraphDelta.Proofs.Edits
import GraphDelta.Proofs.Phases
import GraphDelta.Proofs.Ranking

set_option autoImplicit false

namespace GraphDelta

variable {o c : Catalog} {d : Delta} {id : Ident} {n r : Node} {k : Property.Key} {p q e : Property}

/-! ### What is taken and what is added -/

namespace Delta

/-- Where no object is its own ancestor, everything that leaves is taken. -/
theorem takes_of_cascades (ho : o.nodes.Filed) (hd : between o c = .ok d) (hacyc : o.nodes.Acyclic)
    (h : cascades o.nodes c.nodes id = true) : d.Takes o.nodes id :=
  (takes_iff ho hd).2 ⟨hacyc.ends id, id, .refl id, h⟩

theorem pairwise_removals (ho : o.nodes.Filed) (hd : between o c = .ok d) :
    d.removals.Pairwise fun r r' => ¬ Leads o.nodes.parent? r'.id r.id := by
  have hne : d.removals.Pairwise fun r r' => r.id ≠ r'.id :=
    List.pairwise_map.1 (nodup_removals ho hd)
  refine hne.imp_of_mem ?_
  intro r r' hr hr' hrr' hleads
  have htop := ((mem_removals ho hd).1 hr).2
  have htop' := ((mem_removals ho hd).1 hr').2
  rcases leads_iff.1 hleads with heq | hon
  · exact hrr' heq.symm
  · exact htop'.not_leadsOn htop hon

theorem takes_of_mem_additions (ho : o.nodes.Filed) (hc : c.nodes.Filed) (hd : between o c = .ok d)
    (hacyc : o.nodes.Acyclic) (hanch : o.nodes.Anchored c.nodes) (hn : n ∈ d.additions)
    (hold : n.id ∈ o.nodes) : d.Takes o.nodes n.id := by
  have hnew : n.id ∈ c.nodes := NodeMap.mem_of_getElem?_eq_some ((mem_additions hc hd).1 hn).1
  refine (adds_iff_takes ho hc hd hacyc hanch hold hnew).1 ?_
  exact adds_eq_true_iff.2 (List.mem_map.2 ⟨n, hn, rfl⟩)

/-- The new objects are the old ones that are not taken, and those that are added. -/
theorem getElem?_new_iff (ho : o.nodes.Filed) (hc : c.nodes.Filed) (hd : between o c = .ok d)
    (hacyc : o.nodes.Acyclic) (hanch : o.nodes.Anchored c.nodes) :
    c.nodes[id]? = some n ↔
      (o.nodes[id]? = some n ∧ ¬ d.Takes o.nodes id) ∨ n ∈ d.additions ∧ n.id = id := by
  constructor
  · intro hn
    cases hc id n hn
    by_cases hadd : n ∈ d.additions
    · exact .inr ⟨hadd, rfl⟩
    · left
      have hno : ¬ d.adds n.id = true := fun h => hadd ((mem_additions hc hd).2
        ⟨hn, (adds_iff hc hd).1 h⟩)
      have hold : o.nodes[n.id]? = some n := getElem?_old_of_not_adds hc hd hno hn
      refine ⟨hold, fun ht => hno ((adds_iff_takes ho hc hd hacyc hanch ?_ ?_).2 ht)⟩
      · exact NodeMap.mem_of_getElem?_eq_some hold
      · exact NodeMap.mem_of_getElem?_eq_some hn
  · rintro (⟨hn, hno⟩ | ⟨hadd, rfl⟩)
    · by_contra hnew
      exact hno (takes_of_cascades ho hd hacyc (cascades_iff_departs.2 ⟨n, hn, hnew⟩))
    · exact ((mem_additions hc hd).1 hadd).1

end Delta

/-! ### Snapshots that fit together -/

/-- The objects of both snapshots form trees, every property belongs to an object, and no object stays
in its place under a parent that comes or goes. -/
structure Snapshot.Compatible (old new : Snapshot) : Prop where
  old_treelike : old.Treelike
  new_treelike : new.Treelike
  old_owned : old.Owned
  new_owned : new.Owned
  anchored : old.objects.Anchored new.objects

theorem Snapshot.Owned.owner_mem {s : Snapshot} (h : s.Owned)
    (hp : (Catalog.ofSnapshot s).properties[k]? = some p) : k.owner ∈ s.objects := by
  have hkey : p.key = k := PropertyMap.key_of_getElem?_ofList hp
  exact hkey ▸ h p (PropertyMap.mem_of_getElem?_ofList hp)

theorem Snapshot.Treelike.stored_eq_self {s : Snapshot} (h : s.Treelike)
    (hn : s.objects[id]? = some n) : n.stored = n :=
  Node.stored_eq_self (h.parent_ne_empty n (NodeMap.mem_of_getElem?_ofList hn))

theorem Delta.Edited.stored?_eq (h : Edited o c k e) :
    e.stored? = c.properties[k]?.bind Property.stored? := by
  cases h with
  | fresh _ hq => rw [hq]; rfl
  | gone _ hq _ => rw [hq]; rfl
  | changed _ hq _ => rw [hq]; rfl
  | rebuilt _ hq _ _ => rw [hq]; rfl

/-! ### Between the additions and the edits -/

namespace Workspace.Transaction

variable {t t' : Transaction} {old new : Snapshot} {mode : Replay.Mode}

/-- The objects are the new ones, the added ones have marks, and the properties are the old ones of the
objects that were not taken. -/
structure Midway (o c : Catalog) (d : Delta) (t : Transaction) : Prop where
  nodes : t.state.nodes = c.nodes
  created : ∀ id : Ident, id ∈ t.created ↔ d.adds id = true
  properties : ∀ (k : Property.Key) (p : Property), t.state.properties[k]? = some p ↔
    o.properties[k]?.bind Property.stored? = some p ∧ ¬ d.Takes o.nodes k.owner

/-- Removals go through in the old graph, and take what they should. -/
theorem exists_loses (hd : Delta.between (.ofSnapshot old) (.ofSnapshot new) = .ok d) {rs : List Node}
    (hrs : rs.Sublist d.removals) :
    ∃ t, run (rs.map Node.removal) ⟨.ofSnapshot old, ∅⟩ = (.ok (), t) ∧
      Loses (fun x => ∃ r ∈ rs, Leads old.objects.parent? x r.id) ⟨.ofSnapshot old, ∅⟩ t := by
  have ho : (Catalog.ofSnapshot old).nodes.Filed := NodeMap.filed_ofList old.nodes
  have hnodes : (State.ofSnapshot old).nodes = old.objects := State.nodes_ofSnapshot old
  obtain ⟨t, ht⟩ : ∃ t, run (rs.map Node.removal) ⟨.ofSnapshot old, ∅⟩ = (.ok (), t) := by
    refine exists_run_removals ?_ ?_
    · intro r hr
      rw [hnodes]
      exact ((Delta.mem_removals ho hd).1 (hrs.subset hr)).1
    · rw [hnodes]
      exact (Delta.pairwise_removals ho hd).sublist hrs
  have hloses := loses_of_run ht
  rw [hnodes] at hloses
  exact ⟨t, ht, hloses⟩

/-- Additions go through after the removals, as none meets an object that is still there. -/
theorem exists_exchanges (hold : old.objects.Acyclic) (hnew : new.Treelike)
    (hanch : old.objects.Anchored new.objects)
    (hd : Delta.between (.ofSnapshot old) (.ofSnapshot new) = .ok d) {l : List Node}
    (hl : l ⊆ d.additions) (hnodup : (l.map Node.id).Nodup) :
    ∃ t, run (d.removals.map Node.removal ++ l.map Node.addition) ⟨.ofSnapshot old, ∅⟩ = (.ok (), t) ∧
      Exchanges (d.Takes old.objects) l ⟨.ofSnapshot old, ∅⟩ t := by
  have ho : (Catalog.ofSnapshot old).nodes.Filed := NodeMap.filed_ofList old.nodes
  have hc : (Catalog.ofSnapshot new).nodes.Filed := NodeMap.filed_ofList new.nodes
  obtain ⟨t₁, ht₁, hloses⟩ := exists_loses hd (.refl d.removals)
  obtain ⟨t, ht⟩ : ∃ t, t₁.run (l.map Node.addition) = (.ok (), t) := by
    refine exists_run_additions hnodup ?_
    intro n hn hmem
    obtain ⟨m, hm⟩ := NodeMap.mem_iff_exists.1 hmem
    obtain ⟨hm, hno⟩ := (hloses.nodes n.id m).1 hm
    rw [State.nodes_ofSnapshot] at hm
    exact hno (Delta.takes_of_mem_additions ho hc hd hold hanch (hl hn)
      (NodeMap.mem_of_getElem?_eq_some hm))
  have hstored : l.map Node.stored = l := by
    refine (List.map_congr_left ?_).trans (List.map_id l)
    intro n hn
    exact hnew.stored_eq_self ((Delta.mem_additions hc hd).1 (hl hn)).1
  have hgains := gains_of_run ht
  rw [hstored] at hgains
  exact ⟨t, run_append_eq_ok_iff.2 ⟨t₁, ht₁, ht⟩, hloses.exchanges hgains⟩

/-- **The removals and the additions go through**, and leave the new objects. -/
theorem exists_midway (h : old.Compatible new)
    (hd : Delta.between (.ofSnapshot old) (.ofSnapshot new) = .ok d) {l : List Node}
    (hl : l.Perm d.additions) :
    ∃ t, run (d.removals.map Node.removal ++ l.map Node.addition) ⟨.ofSnapshot old, ∅⟩ = (.ok (), t) ∧
      Midway (.ofSnapshot old) (.ofSnapshot new) d t := by
  have ho : (Catalog.ofSnapshot old).nodes.Filed := NodeMap.filed_ofList old.nodes
  have hc : (Catalog.ofSnapshot new).nodes.Filed := NodeMap.filed_ofList new.nodes
  obtain ⟨t, ht, hex⟩ := exists_exchanges h.old_treelike.acyclic h.new_treelike h.anchored hd
    hl.subset (Delta.nodup_of_perm hc hd hl)
  refine ⟨t, ht, ?_, ?_, ?_⟩
  · refine Std.ExtTreeMap.ext_getElem? fun id => Option.ext fun n => ?_
    rw [hex.nodes, State.nodes_ofSnapshot, hl.mem_iff]
    exact (Delta.getElem?_new_iff ho hc hd h.old_treelike.acyclic h.anchored).symm
  · intro id
    have hempty : id ∉ (∅ : Std.ExtTreeSet Ident) := Std.ExtTreeSet.not_mem_empty
    rw [hex.created, or_iff_right fun hid => hempty hid.1, Delta.adds_eq_true_iff, List.mem_map]
    simp only [hl.mem_iff]
  · intro k p
    rw [hex.properties, State.getElem?_properties_ofSnapshot]
    rfl

/-- What the workspace keeps of a property whose object stays is what it was, unless the object was
added again. -/
theorem Midway.getElem?_properties (hm : Midway (.ofSnapshot old) (.ofSnapshot new) d t)
    (h : old.Compatible new) (hd : Delta.between (.ofSnapshot old) (.ofSnapshot new) = .ok d)
    (hp : (Catalog.ofSnapshot old).properties[k]? = some p) (hnew : k.owner ∈ new.objects) :
    k.owner ∈ t.created ∨ t.state.properties[k]? = p.stored? := by
  have ho : (Catalog.ofSnapshot old).nodes.Filed := NodeMap.filed_ofList old.nodes
  have hc : (Catalog.ofSnapshot new).nodes.Filed := NodeMap.filed_ofList new.nodes
  have hold : k.owner ∈ old.objects := h.old_owned.owner_mem hp
  rw [hm.created, Delta.adds_iff_takes ho hc hd h.old_treelike.acyclic h.anchored hold hnew,
    or_iff_not_imp_left]
  intro hno
  refine Option.ext fun q => ?_
  rw [hm.properties, hp]
  exact and_iff_left hno

theorem Midway.getElem?_properties_eq_none (hm : Midway o c d t)
    (h : o.properties[k]? = none ∨ d.Takes o.nodes k.owner) : t.state.properties[k]? = none := by
  rw [Option.eq_none_iff_forall_not_mem]
  intro p hp
  obtain ⟨hold, hno⟩ := (hm.properties k p).1 hp
  rcases h with h | h
  · rw [h] at hold
    cases hold
  · exact hno h

/-! ### The edits -/

/-- The object of an edit is there, and the value before is current unless the object was added. -/
theorem Midway.edit_ready (hm : Midway (.ofSnapshot old) (.ofSnapshot new) d t)
    (h : old.Compatible new) (hd : Delta.between (.ofSnapshot old) (.ofSnapshot new) = .ok d)
    (he : Delta.Edited (.ofSnapshot old) (.ofSnapshot new) k e) :
    k.owner ∈ new.objects ∧
      (k.owner ∈ t.created ∨ (t.state.value k == e.before) = true) := by
  have hkept {p : Property} (hp : (Catalog.ofSnapshot old).properties[k]? = some p)
      (hnew : k.owner ∈ new.objects) :
      k.owner ∈ t.created ∨ (t.state.value k == p.after) = true := by
    refine (hm.getElem?_properties h hd hp hnew).imp_right fun hstored => ?_
    rw [Workspace.State.value_eq hstored]
    exact beq_self_eq_true p.after
  cases he with
  | fresh hp hq =>
      refine ⟨h.new_owned.owner_mem hq, .inr ?_⟩
      rw [State.value, hm.getElem?_properties_eq_none (.inl hp)]
      rfl
  | gone hp _ hmem =>
      have hnew : k.owner ∈ new.objects := PropertyMap.filed_ofList old.properties k _ hp ▸ hmem
      exact ⟨hnew, hkept hp hnew⟩
  | changed hp hq _ =>
      have hnew : k.owner ∈ new.objects := h.new_owned.owner_mem hq
      exact ⟨hnew, hkept hp hnew⟩
  | @rebuilt p q _ hq _ hr =>
      have hkey : q.key = k := PropertyMap.filed_ofList new.properties k q hq
      refine ⟨h.new_owned.owner_mem hq, .inl ?_⟩
      rw [hm.created, Delta.adds_iff (NodeMap.filed_ofList new.nodes) hd, ← hkey]
      exact .inr hr

/-- **The edits go through**: the values that they insist on are current. -/
theorem Midway.exists_run_edits (hm : Midway (.ofSnapshot old) (.ofSnapshot new) d t)
    (h : old.Compatible new) (hd : Delta.between (.ofSnapshot old) (.ofSnapshot new) = .ok d)
    (mode : Replay.Mode) : ∃ t', t.run (d.edits.map (Property.call mode)) = (.ok (), t') := by
  have ho := PropertyMap.filed_ofList old.properties
  have hc := PropertyMap.filed_ofList new.properties
  have hready {e : Property} (he : e ∈ d.edits) := hm.edit_ready h hd ((Delta.mem_edits ho hc hd).1 he)
  refine (exists_run_edits_iff (Delta.nodup_edits ho hc hd)).2 fun e he => ⟨?_, fun _ => (hready he).2⟩
  rw [hm.nodes]
  exact (hready he).1

theorem Midway.properties_beq_of_unedited (hm : Midway (.ofSnapshot old) (.ofSnapshot new) d t)
    (h : old.Compatible new) (hd : Delta.between (.ofSnapshot old) (.ofSnapshot new) = .ok d)
    (hno : ∀ e, ¬ Delta.Edited (.ofSnapshot old) (.ofSnapshot new) k e) :
    (t.state.properties[k]? == (State.ofSnapshot new).properties[k]?) = true := by
  have ho := PropertyMap.filed_ofList old.properties
  have hc := PropertyMap.filed_ofList new.properties
  rw [State.getElem?_properties_ofSnapshot]
  change (_ == (Catalog.ofSnapshot new).properties[k]?.bind Property.stored?) = true
  rcases Delta.eq_of_unedited hno with ⟨hp, hq⟩ | ⟨p, hp, hq, hgone⟩ | ⟨p, q, hp, hq, hsame, hr⟩
  · rw [hm.getElem?_properties_eq_none (.inl hp), hq]
    rfl
  · -- the object is gone, so that the removals have taken the property along
    have hkey : p.key = k := ho k p hp
    have hcasc : Delta.cascades old.objects new.objects k.owner = true :=
      Delta.cascades_of_gone (h.old_owned.owner_mem hp) (hkey ▸ hgone)
    have htakes := Delta.takes_of_cascades (NodeMap.filed_ofList old.nodes) hd
      h.old_treelike.acyclic hcasc
    rw [hm.getElem?_properties_eq_none (.inr htakes), hq]
    rfl
  · -- the object is not rebuilt, so that the removals have left the property alone
    have hkey : q.key = k := hc k q hq
    have hnew : k.owner ∈ new.objects := h.new_owned.owner_mem hq
    have hold : k.owner ∈ old.objects := h.old_owned.owner_mem hp
    have hstored : t.state.properties[k]? = p.stored? := by
      refine (hm.getElem?_properties h hd hp hnew).resolve_left ?_
      rw [hm.created, Delta.adds_iff (NodeMap.filed_ofList new.nodes) hd, not_or]
      refine ⟨fun hf => (NodeMap.isFresh_iff.1 hf).1 hold, ?_⟩
      exact hkey ▸ hr
    rw [hstored, hq]
    exact Property.stored?_beq ((ho k p hp).trans hkey.symm) hsame

theorem Midway.properties_beq (hm : Midway (.ofSnapshot old) (.ofSnapshot new) d t)
    (h : old.Compatible new) (hd : Delta.between (.ofSnapshot old) (.ofSnapshot new) = .ok d)
    (hedits : Edits d.edits t t') (k : Property.Key) :
    (t'.state.properties[k]? == (State.ofSnapshot new).properties[k]?) = true := by
  have ho := PropertyMap.filed_ofList old.properties
  have hc := PropertyMap.filed_ofList new.properties
  by_cases hex : ∃ e, Delta.Edited (.ofSnapshot old) (.ofSnapshot new) k e
  · obtain ⟨e, he⟩ := hex
    have hkey : e.key = k := he.key_eq ho hc
    subst hkey
    rw [hedits.set e ((Delta.mem_edits ho hc hd).2 he), he.stored?_eq,
      State.getElem?_properties_ofSnapshot]
    exact beq_self_eq_true _
  · push Not at hex
    have hother : t'.state.properties[k]? = t.state.properties[k]? := by
      refine hedits.other k ?_
      rintro e he rfl
      exact hex e ((Delta.mem_edits ho hc hd).1 he)
    rw [hother]
    exact hm.properties_beq_of_unedited h hd hex

end Workspace.Transaction

/-! ### The replay -/

theorem Delta.exists_between_of_acyclic (ho : o.nodes.Filed) (hacyc : o.nodes.Acyclic)
    (hacyc' : c.nodes.Acyclic) : ∃ d, between o c = .ok d := by
  refine (exists_between_eq_ok_iff ho).2 ⟨fun _ => hacyc', ?_⟩
  intro x z _ _ hz
  exact absurd hz (hacyc z)

theorem Snapshot.Compatible.exists_between_eq_ok {old new : Snapshot} (h : old.Compatible new) :
    ∃ d, Delta.between (.ofSnapshot old) (.ofSnapshot new) = .ok d :=
  Delta.exists_between_of_acyclic (NodeMap.filed_ofList old.nodes) h.old_treelike.acyclic
    h.new_treelike.acyclic

namespace Comparison

/-- **A replay into the old graph makes the new one.**  Between compatible snapshots the comparison
succeeds; in either mode its replay into a workspace that holds the old snapshot succeeds, tells the
numbers of removals, additions and edits, leaves no transaction open, and leaves a workspace that reads
like one that holds the new snapshot. -/
theorem replay_converges (old new : Snapshot) (h : old.Compatible new) :
    ∃ c, fresh.compare old new = (.ok (), c) ∧ ∀ mode, ∃ w,
      c.replay mode Workspace.sink (.ofSnapshot old) =
        (.ok ⟨c.delta.removals.length, c.delta.additions.length, c.delta.edits.length⟩, w) ∧
      w.inTransaction = false ∧ (w.snapshot == (Workspace.ofSnapshot new).snapshot) = true := by
  obtain ⟨d, hd⟩ := h.exists_between_eq_ok
  refine ⟨_, compare_eq_ok_iff.2 ⟨d, hd, rfl⟩, fun mode => ?_⟩
  have hadditions : ∀ n ∈ d.additions, new.objects[n.id]? = some n := fun n hn =>
    ((Delta.mem_additions (NodeMap.filed_ofList new.nodes) hd).1 hn).1
  obtain ⟨l, hl, hperm⟩ := exists_replayOrder_eq_ok h.new_treelike.acyclic hadditions
  obtain ⟨t, ht, hm⟩ := Workspace.Transaction.exists_midway h hd hperm
  obtain ⟨t', ht'⟩ := hm.exists_run_edits h hd mode
  have horder : (done (.ofSnapshot old) (.ofSnapshot new) d).order = .ok l := hl
  have hrun : Workspace.Transaction.run (d.calls mode l) ⟨.ofSnapshot old, ∅⟩ = (.ok (), t') :=
    Workspace.Transaction.run_append_eq_ok_iff.2 ⟨t, ht, ht'⟩
  refine ⟨⟨t'.state, none⟩, ?_, rfl, ?_⟩
  · rw [Workspace.ofSnapshot, replay_into_closed, horder]
    simp only [delta, hrun]
    rfl
  · have hedits := Workspace.Transaction.edits_of_run
      (Delta.nodup_edits (PropertyMap.filed_ofList old.properties)
        (PropertyMap.filed_ofList new.properties) hd) ht'
    have hnodes : t'.state.nodes = (Workspace.State.ofSnapshot new).nodes := by
      rw [hedits.nodes, hm.nodes, Workspace.State.nodes_ofSnapshot]
      rfl
    rw [Workspace.snapshot, Workspace.snapshot, Workspace.State.snapshot, Workspace.State.snapshot,
      Snapshot.beq_def, Bool.and_eq_true, hnodes]
    exact ⟨beq_self_eq_true _, PropertyMap.properties_beq fun k => hm.properties_beq h hd hedits k⟩

/-- A chain of three objects is turned upside down, one object stays, one is gone and one is fresh; of
the values one goes, one stays, one changes and one comes. -/
theorem replay_converges_on_reversed_chain :
    let old : Snapshot := ⟨
      [⟨none, "T", ⟨"a"⟩, 0⟩, ⟨some ⟨"a"⟩, "T", ⟨"b"⟩, 0⟩, ⟨some ⟨"b"⟩, "T", ⟨"c"⟩, 0⟩,
        ⟨some ⟨"c"⟩, "T", ⟨"d"⟩, 0⟩, ⟨none, "T", ⟨"f"⟩, 0⟩],
      [.point ⟨"a"⟩ "x" .string (.ofText "1"), .point ⟨"b"⟩ "x" .string (.ofText "2"),
        .point ⟨"f"⟩ "x" .string (.ofText "4")]⟩
    let new : Snapshot := ⟨
      [⟨none, "T", ⟨"c"⟩, 0⟩, ⟨some ⟨"c"⟩, "T", ⟨"b"⟩, 0⟩, ⟨some ⟨"b"⟩, "T", ⟨"a"⟩, 0⟩,
        ⟨some ⟨"a"⟩, "T", ⟨"e"⟩, 0⟩, ⟨none, "T", ⟨"f"⟩, 0⟩],
      [.point ⟨"b"⟩ "x" .string (.ofText "2"), .point ⟨"e"⟩ "x" .string (.ofText "3"),
        .point ⟨"f"⟩ "x" .string (.ofText "5")]⟩
    ∃ c, fresh.compare old new = (.ok (), c) ∧ ∀ mode, ∃ w,
      c.replay mode Workspace.sink (.ofSnapshot old) =
        (.ok ⟨c.delta.removals.length, c.delta.additions.length, c.delta.edits.length⟩, w) ∧
      w.inTransaction = false ∧ (w.snapshot == (Workspace.ofSnapshot new).snapshot) = true := by
  intro old new
  have hold : old ∈ [old, new] := List.mem_cons_self
  have hnew : new ∈ [old, new] := List.mem_cons_of_mem old List.mem_cons_self
  have hparent : ∀ s ∈ [old, new], ∀ n ∈ s.nodes, n.parent.all (fun p => !p.isEmpty) = true := by
    decide +kernel
  have howned : ∀ s ∈ [old, new], ∀ p ∈ s.properties, p.owner ∈ s.objects := by decide +kernel
  have hstays : ∀ n ∈ old.nodes, n ∈ new.nodes → n.parent = none := by decide +kernel
  have htreelike (s : Snapshot) (hs : s ∈ [old, new]) (f : Forest)
      (hf : Forest.ofMap s.objects = .ok f) : s.Treelike := by
    refine ⟨?_, Forest.exists_ofMap_eq_ok_iff.1 ⟨f, hf⟩⟩
    intro n hn p hp
    have hall := hparent s hs n hn
    rw [hp] at hall
    simpa using hall
  refine replay_converges old new ⟨htreelike old hold _ rfl, htreelike new hnew _ rfl,
    howned old hold, howned new hnew, ?_⟩
  rintro id p ⟨n, hn, hn', hp⟩
  rw [hstays n (NodeMap.mem_of_getElem?_ofList hn) (NodeMap.mem_of_getElem?_ofList hn')] at hp
  cases hp

end Comparison

end GraphDelta
