/-
**What a comparison adds, and the balance with what it removes.**

A comparison adds the objects that are fresh and those that are rebuilt: the moved ones and everything
below them in the new map.  A removal takes everything below it in the old map.  The two sides are walked
along the pointers of different maps, and agree as long as the records on the way are the same in both.
They part where an object stays in its place under a parent that is in one of the maps only: an object
that stays under a gone parent is taken and not added again, and one that stays under a fresh parent is
added without having been taken if the parent hangs below a moved object.

Main definitions:

* `NodeMap.StaysUnder` — an object has one record in both maps, which puts it under a given parent;
* `NodeMap.Anchored` — no object stays in its place under a parent that comes or goes;
* `Delta.IsRebuilt` — an object or one of its new ancestors moved;
* `Delta.Takes` — the removals take an object along.

Main results:

* `Delta.adds_iff` — **the additions are the fresh and the rebuilt objects**;
* `Delta.takes_iff` — the removals take what leads to an object that leaves;
* `Delta.adds_iff_takes` — between anchored maps without cycles, of the objects that both maps hold
  exactly those are added that were taken;
* `Comparison.additions_balance` — **when everything that is taken is added again, and nothing else**.
-/
import GraphDelta.Proofs.Removals

set_option autoImplicit false

namespace GraphDelta

variable {old new : NodeMap} {id x y z p : Ident} {n : Node} {f : Forest}

namespace NodeMap

/-! ### Objects that stay in their place -/

/-- The object has one record in both maps, which puts it under the parent. -/
def StaysUnder (old new : NodeMap) (id p : Ident) : Prop :=
  ∃ n, old[id]? = some n ∧ new[id]? = some n ∧ n.parent = some p

/-- No object stays in its place under a parent that comes or goes. -/
def Anchored (old new : NodeMap) : Prop := ∀ id p, StaysUnder old new id p → (p ∈ old ↔ p ∈ new)

theorem StaysUnder.mem (h : StaysUnder old new id p) : id ∈ old ∧ id ∈ new := by
  obtain ⟨n, hn, hn', -⟩ := h
  exact ⟨mem_of_getElem?_eq_some hn, mem_of_getElem?_eq_some hn'⟩

theorem StaysUnder.parent? (h : StaysUnder old new id p) :
    old.parent? id = some p ∧ new.parent? id = some p := by
  obtain ⟨n, hn, hn', hp⟩ := h
  exact ⟨parent?_eq_some_iff.2 ⟨n, hn, hp⟩, parent?_eq_some_iff.2 ⟨n, hn', hp⟩⟩

theorem StaysUnder.not_moved (h : StaysUnder old new id p) : ¬ old.Moved new id := by
  obtain ⟨n, hn, hn', -⟩ := h
  rintro ⟨a, b, ha, hb, hne⟩
  rw [hn] at ha
  rw [hn'] at hb
  exact hne (Option.some_inj.1 (ha.symm.trans hb))

theorem staysUnder_of_parent? (hold : id ∈ old) (hnew : id ∈ new)
    (hm : ¬ old.Moved new id) (hp : old.parent? id = some p ∨ new.parent? id = some p) :
    StaysUnder old new id p := by
  obtain ⟨a, ha⟩ := mem_iff_exists.1 hold
  obtain ⟨b, hb⟩ := mem_iff_exists.1 hnew
  have hab : a = b := by
    by_contra hne
    exact hm ⟨a, b, ha, hb, hne⟩
  subst hab
  rw [NodeMap.parent?, NodeMap.parent?, ha, hb] at hp
  exact ⟨a, ha, hb, hp.elim (fun h => h) fun h => h⟩

end NodeMap

namespace Delta

/-! ### Rebuilt objects -/

/-- The object or one of its ancestors in the new map moved. -/
def IsRebuilt (old new : NodeMap) (id : Ident) : Prop :=
  ∃ x, old.Moved new x ∧ Leads new.parent? id x

theorem IsRebuilt.mem (h : IsRebuilt old new id) : id ∈ new := by
  obtain ⟨x, hx, hid⟩ := h
  exact NodeMap.mem_of_leads hid hx.mem.2

theorem IsRebuilt.of_parent (hp : new.parent? id = some p) (h : IsRebuilt old new p) :
    IsRebuilt old new id := by
  obtain ⟨x, hx, hpx⟩ := h
  exact ⟨x, hx, (leadsOn_iff.2 ⟨p, hp, hpx⟩).leads⟩

/-- What an object that did not move itself is rebuilt with is its parent. -/
theorem IsRebuilt.parent (h : IsRebuilt old new id) (hid : ¬ old.Moved new id) :
    ∃ p, new.parent? id = some p ∧ IsRebuilt old new p := by
  obtain ⟨x, hx, hidx⟩ := h
  rcases leads_iff.1 hidx with rfl | hon
  · exact absurd hx hid
  · obtain ⟨p, hp, hpx⟩ := leadsOn_iff.1 hon
    exact ⟨p, hp, x, hx, hpx⟩

/-- Where something moved, the forest that was asked for is the one of the new objects. -/
theorem mem_below_newForest (hf : newForest old new = .ok f) (hx : old.Moved new x) :
    y ∈ f.below x ↔ Leads new.parent? y x := by
  rw [newForest_of_moved hx] at hf
  have hnodes : f.nodes = new := Forest.nodes_of_ofMap hf
  rw [Forest.mem_below (hnodes ▸ hx.mem.2), hnodes]

theorem mem_rebuiltIds (hf : newForest old new = .ok f) :
    id ∈ rebuiltIds f old new ↔ IsRebuilt old new id := by
  rw [rebuiltIds, Std.ExtTreeSet.mem_ofList, List.contains_iff_mem, List.mem_flatMap]
  constructor
  · rintro ⟨x, hx, hid⟩
    have hx := mem_movedIds.1 hx
    exact ⟨x, hx, (mem_below_newForest hf hx).1 hid⟩
  · rintro ⟨x, hx, hid⟩
    exact ⟨x, mem_movedIds.2 hx, (mem_below_newForest hf hx).2 hid⟩

theorem mem_additionIds (hf : newForest old new = .ok f) :
    id ∈ additionIds f old new ↔ old.isFresh new id = true ∨ IsRebuilt old new id := by
  rw [additionIds, mem_distinct, List.mem_flatMap]
  constructor
  · rintro ⟨x, -, hid⟩
    split at hid
    · rename_i hx
      cases List.mem_singleton.1 hid
      exact .inl hx
    · split at hid
      · rename_i hx
        have hx := NodeMap.isMoved_iff.1 hx
        exact .inr ⟨x, hx, (mem_below_newForest hf hx).1 hid⟩
      · exact absurd hid List.not_mem_nil
  · rintro (hid | ⟨x, hx, hid⟩)
    · refine ⟨id, NodeMap.mem_allIds.2 (.inr (NodeMap.isFresh_iff.1 hid).2), ?_⟩
      rw [if_pos hid]
      exact List.mem_singleton.2 rfl
    · refine ⟨x, NodeMap.mem_allIds.2 (.inl hx.mem.1), ?_⟩
      rw [if_neg fun h => (NodeMap.isFresh_iff.1 h).1 hx.mem.1, if_pos (NodeMap.isMoved_iff.2 hx)]
      exact (mem_below_newForest hf hx).2 hid

/-! ### The additions of a difference -/

variable {o c : Catalog} {d : Delta}

/-- **The additions are the new records of the fresh and the rebuilt objects.** -/
theorem mem_additions (hc : c.nodes.Filed) (h : between o c = .ok d) :
    n ∈ d.additions ↔ c.nodes[n.id]? = some n ∧
      (o.nodes.isFresh c.nodes n.id = true ∨ IsRebuilt o.nodes c.nodes n.id) := by
  obtain ⟨f, lists, hf, -, rfl⟩ := between_eq_ok_iff.1 h
  rw [List.mem_filterMap]
  constructor
  · rintro ⟨id, hid, hn⟩
    cases hc id n hn
    exact ⟨hn, (mem_additionIds hf).1 hid⟩
  · rintro ⟨hn, hid⟩
    exact ⟨n.id, (mem_additionIds hf).2 hid, hn⟩

theorem nodup_additions (hc : c.nodes.Filed) (h : between o c = .ok d) :
    (d.additions.map Node.id).Nodup := by
  obtain ⟨f, lists, -, -, rfl⟩ := between_eq_ok_iff.1 h
  exact (nodup_distinct _).sublist (map_filterMap_sublist (fun id n hn => hc id n hn) _)

theorem nodup_of_perm (hc : c.nodes.Filed) (h : between o c = .ok d) {l : List Node}
    (hl : l.Perm d.additions) : (l.map Node.id).Nodup :=
  (hl.map Node.id).nodup_iff.2 (nodup_additions hc h)

theorem adds_eq_true_iff : d.adds id = true ↔ id ∈ d.additions.map Node.id := by
  rw [adds, List.any_eq_true, List.mem_map]
  simp only [beq_iff_eq]

theorem adds_iff (hc : c.nodes.Filed) (h : between o c = .ok d) :
    d.adds id = true ↔ o.nodes.isFresh c.nodes id = true ∨ IsRebuilt o.nodes c.nodes id := by
  rw [adds_eq_true_iff, List.mem_map]
  constructor
  · rintro ⟨n, hn, rfl⟩
    exact ((mem_additions hc h).1 hn).2
  · intro hid
    have hmem : id ∈ c.nodes := hid.elim (fun hf => (NodeMap.isFresh_iff.1 hf).2) IsRebuilt.mem
    obtain ⟨n, hn⟩ := NodeMap.mem_iff_exists.1 hmem
    cases hc id n hn
    exact ⟨n, (mem_additions hc h).2 ⟨hn, hid⟩, rfl⟩

theorem getElem?_old_of_not_adds (hc : c.nodes.Filed) (h : between o c = .ok d)
    (hno : ¬ d.adds id = true) (hn : c.nodes[id]? = some n) : o.nodes[id]? = some n := by
  rw [adds_iff hc h, not_or] at hno
  have hnew : id ∈ c.nodes := NodeMap.mem_of_getElem?_eq_some hn
  have hold : id ∈ o.nodes := by
    by_contra hold
    exact hno.1 (NodeMap.isFresh_iff.2 ⟨hold, hnew⟩)
  obtain ⟨a, ha⟩ := NodeMap.mem_iff_exists.1 hold
  have han : a = n := by
    by_contra hne
    exact hno.2 ⟨id, ⟨a, n, ha, hn, hne⟩, .refl id⟩
  rw [ha, han]

/-! ### What the removals take -/

/-- Parents lead from the object to a removed one, so that the removals take it along. -/
def Takes (d : Delta) (old : NodeMap) (id : Ident) : Prop :=
  ∃ r ∈ d.removals, Leads old.parent? id r.id

/-- The removals take what leads to an object that leaves, on chains that end. -/
theorem takes_iff (ho : o.nodes.Filed) (h : between o c = .ok d) :
    d.Takes o.nodes id ↔ Ends o.nodes.parent? id ∧
      ∃ y, Leads o.nodes.parent? id y ∧ cascades o.nodes c.nodes y = true := by
  constructor
  · rintro ⟨r, hr, hid⟩
    exact ⟨ends_of_leads_removal ho h hr hid, r.id, hid, ((mem_removals ho h).1 hr).2.1⟩
  · rintro ⟨hends, y, hid, hy⟩
    obtain ⟨r, ⟨hr, hyr⟩, -⟩ := existsUnique_removal ho h hy (hends.leads hid)
    exact ⟨r, hr, hid.trans hyr⟩

theorem Takes.of_parent (hp : old.parent? id = some p) (h : d.Takes old p) : d.Takes old id := by
  obtain ⟨r, hr, hpr⟩ := h
  exact ⟨r, hr, (leadsOn_iff.2 ⟨p, hp, hpr⟩).leads⟩

/-! ### The balance -/

/-- What is taken is rebuilt, if nothing whose parents end stays in its place under a gone parent. -/
theorem isRebuilt_of_takes (ho : o.nodes.Filed) (h : between o c = .ok d)
    (hgone : ∀ x p, o.nodes.StaysUnder c.nodes x p → p ∈ o.nodes → p ∉ c.nodes →
      ¬ Ends o.nodes.parent? x)
    (hnew : id ∈ c.nodes) (ht : d.Takes o.nodes id) : IsRebuilt o.nodes c.nodes id := by
  obtain ⟨hends, y, ⟨k, hk⟩, hy⟩ := (takes_iff ho h).1 ht
  -- induction on the distance to an object that leaves, along records that are the same in both maps
  induction k generalizing id with
  | zero =>
      cases hk
      rcases cascades_iff.1 hy with hg | hm
      · exact absurd hnew (NodeMap.isGone_iff.1 hg).2
      · exact ⟨y, hm, .refl y⟩
  | succ k ih =>
      by_cases hm : o.nodes.Moved c.nodes id
      · exact ⟨id, hm, .refl id⟩
      · obtain ⟨p, hp, hpy⟩ := Option.bind_eq_some_iff.1 hk
        have hold : id ∈ o.nodes := NodeMap.mem_of_leads ⟨k + 1, hk⟩ (mem_of_cascades hy)
        have hstays : o.nodes.StaysUnder c.nodes id p :=
          NodeMap.staysUnder_of_parent? hold hnew hm (.inl hp)
        have hpo : p ∈ o.nodes := NodeMap.mem_of_leads ⟨k, hpy⟩ (mem_of_cascades hy)
        have hpc : p ∈ c.nodes := by
          by_contra hpc
          exact hgone id p hstays hpo hpc hends
        have hpends : Ends o.nodes.parent? p := hends.leads (.single hp)
        have hpt : d.Takes o.nodes p := (takes_iff ho h).2 ⟨hpends, y, ⟨k, hpy⟩, hy⟩
        exact .of_parent hstays.parent?.2 (ih hpc hpt hpends hpy)

/-- What is rebuilt was taken, if the parents of the moved objects end and nothing stays in its place
under a fresh parent that is rebuilt. -/
theorem takes_of_isRebuilt (ho : o.nodes.Filed) (h : between o c = .ok d)
    (hends : ∀ x, o.nodes.Moved c.nodes x → Ends o.nodes.parent? x)
    (hfresh : ∀ x p, o.nodes.StaysUnder c.nodes x p → p ∉ o.nodes → ¬ IsRebuilt o.nodes c.nodes p)
    (hold : id ∈ o.nodes) (hid : IsRebuilt o.nodes c.nodes id) : d.Takes o.nodes id := by
  have hmoved {x : Ident} (hx : o.nodes.Moved c.nodes x) : d.Takes o.nodes x :=
    (takes_iff ho h).2 ⟨hends x hx, x, .refl x, cascades_iff.2 (.inr hx)⟩
  obtain ⟨x, hx, k, hk⟩ := hid
  induction k generalizing id with
  | zero =>
      cases hk
      exact hmoved hx
  | succ k ih =>
      by_cases hm : o.nodes.Moved c.nodes id
      · exact hmoved hm
      · obtain ⟨p, hp, hpx⟩ := Option.bind_eq_some_iff.1 hk
        have hnew : id ∈ c.nodes := NodeMap.mem_of_leads ⟨k + 1, hk⟩ hx.mem.2
        have hstays : o.nodes.StaysUnder c.nodes id p :=
          NodeMap.staysUnder_of_parent? hold hnew hm (.inr hp)
        have hpo : p ∈ o.nodes := by
          by_contra hpo
          exact hfresh id p hstays hpo ⟨x, hx, k, hpx⟩
        exact .of_parent hstays.parent?.1 (ih hpo hpx)

/-- An object whose parents end and that stays under a gone one is taken, but not rebuilt. -/
theorem takes_of_gone_parent (ho : o.nodes.Filed) (h : between o c = .ok d)
    (hstays : o.nodes.StaysUnder c.nodes id p) (hpo : p ∈ o.nodes) (hpc : p ∉ c.nodes)
    (hends : Ends o.nodes.parent? id) : d.Takes o.nodes id ∧ ¬ IsRebuilt o.nodes c.nodes id := by
  obtain ⟨hold, hnew⟩ := hstays.parent?
  have hp : LeadsOn o.nodes.parent? id p := .single hold
  refine ⟨(takes_iff ho h).2 ⟨hends, p, hp.leads, cascades_of_gone hpo hpc⟩, ?_⟩
  intro hid
  obtain ⟨q, hq, hqr⟩ := hid.parent hstays.not_moved
  rw [hnew] at hq
  cases hq
  exact hpc hqr.mem

/-- An object that stays under a fresh parent is rebuilt with it, but not taken. -/
theorem isRebuilt_of_fresh_parent (ho : o.nodes.Filed) (h : between o c = .ok d)
    (hstays : o.nodes.StaysUnder c.nodes id p) (hpo : p ∉ o.nodes)
    (hpr : IsRebuilt o.nodes c.nodes p) :
    IsRebuilt o.nodes c.nodes id ∧ ¬ d.Takes o.nodes id := by
  obtain ⟨hold, hnew⟩ := hstays.parent?
  refine ⟨.of_parent hnew hpr, ?_⟩
  intro ht
  obtain ⟨-, y, hidy, hy⟩ := (takes_iff ho h).1 ht
  rcases leads_iff.1 hidy with rfl | hon
  · rcases cascades_iff.1 hy with hg | hm
    · exact (NodeMap.isGone_iff.1 hg).2 hstays.mem.2
    · exact hstays.not_moved hm
  · obtain ⟨q, hq, hqy⟩ := leadsOn_iff.1 hon
    rw [hold] at hq
    cases hq
    exact hpo (NodeMap.mem_of_leads hqy (mem_of_cascades hy))

/-- Between anchored maps without cycles, of the objects that both maps hold exactly those are added
that were taken. -/
theorem adds_iff_takes (ho : o.nodes.Filed) (hc : c.nodes.Filed) (h : between o c = .ok d)
    (hacyc : o.nodes.Acyclic) (hanch : o.nodes.Anchored c.nodes) (hold : id ∈ o.nodes)
    (hnew : id ∈ c.nodes) : d.adds id = true ↔ d.Takes o.nodes id := by
  rw [adds_iff hc h]
  constructor
  · rintro (hf | hr)
    · exact absurd hold (NodeMap.isFresh_iff.1 hf).1
    · refine takes_of_isRebuilt ho h (fun x _ => hacyc.ends x) ?_ hold hr
      intro x p hstays hpo hpr
      exact hpo ((hanch x p hstays).2 hpr.mem)
  · intro ht
    refine .inr (isRebuilt_of_takes ho h ?_ hnew ht)
    intro x p hstays hpo hpc
    exact absurd ((hanch x p hstays).1 hpo) hpc

end Delta

namespace Comparison

/-- **When everything that is taken is added again, and nothing else.**  Whatever both snapshots hold
and the removals take is added again, unless an object whose parents end stays in its place under a gone
one.  Whatever both snapshots hold and the additions name was taken, unless the old parents of a moved
object run into a cycle, or an object stays in its place under a fresh parent that is rebuilt. -/
theorem additions_balance (old new : Snapshot) (c : Comparison)
    (h : fresh.compare old new = (.ok (), c)) :
    ((∀ id, id ∈ old.objects → id ∈ new.objects → c.delta.Takes old.objects id →
        c.delta.adds id = true) ↔
      ∀ id p, old.objects.StaysUnder new.objects id p → p ∈ old.objects → p ∉ new.objects →
        ¬ Ends old.objects.parent? id) ∧
    ((∀ id, id ∈ old.objects → id ∈ new.objects → c.delta.adds id = true →
        c.delta.Takes old.objects id) ↔
      (∀ id, old.objects.Moved new.objects id → Ends old.objects.parent? id) ∧
      ∀ id p, old.objects.StaysUnder new.objects id p → p ∉ old.objects →
        ¬ Delta.IsRebuilt old.objects new.objects p) := by
  obtain ⟨d, hd, rfl⟩ := compare_eq_ok_iff.1 h
  have ho : (Catalog.ofSnapshot old).nodes.Filed := NodeMap.filed_ofList old.nodes
  have hn : (Catalog.ofSnapshot new).nodes.Filed := NodeMap.filed_ofList new.nodes
  have hadds (id : Ident) (hold : id ∈ old.objects) :
      d.adds id = true ↔ Delta.IsRebuilt old.objects new.objects id := by
    rw [Delta.adds_iff hn hd]
    exact or_iff_right fun hf => (NodeMap.isFresh_iff.1 hf).1 hold
  refine ⟨⟨?_, ?_⟩, ⟨?_, ?_⟩⟩
  · intro hall id p hstays hpo hpn hends
    obtain ⟨ht, hr⟩ := Delta.takes_of_gone_parent ho hd hstays hpo hpn hends
    exact hr ((hadds id hstays.mem.1).1 (hall id hstays.mem.1 hstays.mem.2 ht))
  · intro hgone id hold hnew ht
    exact (hadds id hold).2 (Delta.isRebuilt_of_takes ho hd hgone hnew ht)
  · intro hall
    constructor
    · intro id hm
      have ht := hall id hm.mem.1 hm.mem.2 ((hadds id hm.mem.1).2 ⟨id, hm, .refl id⟩)
      exact ((Delta.takes_iff ho hd).1 ht).1
    · intro id p hstays hpo hpr
      obtain ⟨hr, ht⟩ := Delta.isRebuilt_of_fresh_parent ho hd hstays hpo hpr
      exact ht (hall id hstays.mem.1 hstays.mem.2 ((hadds id hstays.mem.1).2 hr))
  · rintro ⟨hends, hfresh⟩ id hold hnew ha
    exact Delta.takes_of_isRebuilt ho hd hends hfresh hold ((hadds id hold).1 ha)

/-- Where a parent moves and its child stays under it, both are taken and both are added again. -/
theorem moved_parent_balances :
    let old : Snapshot := ⟨[⟨none, "T", ⟨"p"⟩, 0⟩, ⟨some ⟨"p"⟩, "T", ⟨"x"⟩, 0⟩], []⟩
    let new : Snapshot := ⟨[⟨none, "T", ⟨"p"⟩, 1⟩, ⟨some ⟨"p"⟩, "T", ⟨"x"⟩, 0⟩], []⟩
    ∃ c, fresh.compare old new = (.ok (), c) ∧ c.delta.adds ⟨"x"⟩ = true ∧
      ∀ id, id ∈ old.objects → id ∈ new.objects →
        (c.delta.adds id = true ↔ c.delta.Takes old.objects id) := by
  intro old new
  have hc : fresh.compare old new = (.ok (), (fresh.compare old new).2) := Prod.ext (by rfl) rfl
  have hkeys : old.objects.keys = new.objects.keys := by decide +kernel
  have hmem (p : Ident) : p ∈ old.objects ↔ p ∈ new.objects := by
    rw [← Std.ExtTreeMap.mem_keys, ← Std.ExtTreeMap.mem_keys, hkeys]
  have hends : ∀ x ∈ Delta.movedIds old.objects new.objects,
      follow old.objects.parent? 1 x = none := by decide +kernel
  obtain ⟨hlost, hfound⟩ := additions_balance old new _ hc
  refine ⟨_, hc, by decide +kernel, fun id hold hnew => ⟨hfound.2 ⟨?_, ?_⟩ id hold hnew,
    hlost.2 ?_ id hold hnew⟩⟩
  · intro x hx
    exact ⟨1, hends x (Delta.mem_movedIds.2 hx)⟩
  · intro x p _ hpo hpr
    exact hpo ((hmem p).2 hpr.mem)
  · intro x p _ hpo hpn
    exact absurd ((hmem p).1 hpo) hpn

/-- A child that stays under a gone parent is taken and not added again. -/
theorem gone_parent_takes_kept_child : ¬ ∀ (old new : Snapshot) (c : Comparison),
    fresh.compare old new = (.ok (), c) → ∀ id, id ∈ old.objects → id ∈ new.objects →
      (c.delta.adds id = true ↔ c.delta.Takes old.objects id) := by
  intro h
  have hc : fresh.compare
      ⟨[⟨none, "T", ⟨"p"⟩, 0⟩, ⟨some ⟨"p"⟩, "T", ⟨"x"⟩, 0⟩], []⟩
      ⟨[⟨some ⟨"p"⟩, "T", ⟨"x"⟩, 0⟩], []⟩ = (.ok (), (fresh.compare
        ⟨[⟨none, "T", ⟨"p"⟩, 0⟩, ⟨some ⟨"p"⟩, "T", ⟨"x"⟩, 0⟩], []⟩
        ⟨[⟨some ⟨"p"⟩, "T", ⟨"x"⟩, 0⟩], []⟩).2) :=
    Prod.ext (by rfl) rfl
  have hiff := h _ _ _ hc ⟨"x"⟩ (by decide +kernel) (by decide +kernel)
  have hadds := hiff.2 ⟨⟨none, "T", ⟨"p"⟩, 0⟩, by decide +kernel, 1, by decide +kernel⟩
  exact absurd hadds (by decide +kernel)

end Comparison

end GraphDelta
