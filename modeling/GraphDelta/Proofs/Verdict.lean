/-
**What an empty difference means.**

A comparison without changes passes for one of identical snapshots.  That is right unless something
of the old snapshot goes in silence, and there are two ways for that.  An object that is gone is not
removed if its parents do not end.  A property that is gone is not edited if its owner is not in the
new snapshot: it is taken to go with its owner, even where the old snapshot has no such owner either.

Main results:

* `NodeMap.nodes_beq_iff`, `PropertyMap.properties_beq_iff` — maps list equal things if they hold equal
  things;
* `Delta.nodes_eq_iff` — without changes, the objects are the same if the parents of all that is gone
  end;
* `Delta.stored_beq_iff` — without edits, the values are equal if no value is gone;
* `Comparison.identical_iff_of_isEmpty` — **when an empty difference means identical snapshots**.
-/
import GraphDelta.Proofs.Edits
import GraphDelta.Proofs.State

set_option autoImplicit false

namespace GraphDelta

variable {o c : Catalog} {d : Delta} {id : Ident} {n : Node} {k : Property.Key} {p : Property}

/-! ### Reading everything -/

theorem exists_mem_beq {α : Type} [BEq α] {l l' : List α} (h : (l == l') = true) :
    (∀ a ∈ l, ∃ b ∈ l', (a == b) = true) ∧ ∀ b ∈ l', ∃ a ∈ l, (a == b) = true := by
  induction l generalizing l' with
  | nil =>
      cases l' with
      | nil => exact ⟨fun a ha => absurd ha List.not_mem_nil, fun b hb => absurd hb List.not_mem_nil⟩
      | cons y l' => cases h
  | cons x l ih =>
      cases l' with
      | nil => cases h
      | cons y l' =>
          rw [List.cons_beq_cons, Bool.and_eq_true] at h
          obtain ⟨hleft, hright⟩ := ih h.2
          rw [List.forall_mem_cons, List.forall_mem_cons]
          refine ⟨⟨⟨y, List.mem_cons_self, h.1⟩, fun a ha => ?_⟩,
            ⟨x, List.mem_cons_self, h.1⟩, fun b hb => ?_⟩
          · obtain ⟨b, hb, hab⟩ := hleft a ha
            exact ⟨b, List.mem_cons_of_mem y hb, hab⟩
          · obtain ⟨a, ha, hab⟩ := hright b hb
            exact ⟨a, List.mem_cons_of_mem x ha, hab⟩

theorem NodeMap.nodes_beq_iff {m m' : NodeMap} (hm : m.Filed) (hm' : m'.Filed) :
    (m.nodes == m'.nodes) = true ↔ m = m' := by
  rw [beq_iff_eq]
  constructor
  · intro h
    have hmem (n : Node) : m[n.id]? = some n ↔ m'[n.id]? = some n := by
      rw [← mem_map_snd_toList hm, ← mem_map_snd_toList hm']
      exact iff_of_eq (congrArg (n ∈ ·) h)
    refine Std.ExtTreeMap.ext_getElem? fun id => Option.ext fun n => ⟨fun hn => ?_, fun hn => ?_⟩
    · cases hm id n hn
      exact (hmem n).1 hn
    · cases hm' id n hn
      exact (hmem n).2 hn
  · rintro rfl
    exact rfl

theorem Property.key_eq_of_beq {q : Property} (h : (p == q) = true) : p.key = q.key := by
  simp only [beq_def, Bool.and_eq_true, beq_iff_eq] at h
  rw [key, key, h.1.1.1.1.1, h.1.1.1.1.2]

theorem PropertyMap.properties_beq_iff {m m' : PropertyMap} (hm : m.Filed) (hm' : m'.Filed) :
    (m.properties == m'.properties) = true ↔ ∀ k : Property.Key, (m[k]? == m'[k]?) = true := by
  refine ⟨fun h k => ?_, properties_beq⟩
  obtain ⟨hleft, hright⟩ := exists_mem_beq h
  cases hp : m[k]? with
  | some p =>
      cases hm k p hp
      obtain ⟨q, hq, hpq⟩ := hleft p ((mem_map_snd_toList hm).2 hp)
      rw [Property.key_eq_of_beq hpq, (mem_map_snd_toList hm').1 hq]
      exact hpq
  | none =>
      cases hq : m'[k]? with
      | none => rfl
      | some q =>
          cases hm' k q hq
          obtain ⟨p, hp', hpq⟩ := hright q ((mem_map_snd_toList hm').2 hq)
          rw [← Property.key_eq_of_beq hpq, (mem_map_snd_toList hm).1 hp'] at hp
          cases hp

theorem Workspace.State.filed_ofSnapshot (s : Snapshot) : (State.ofSnapshot s).properties.Filed := by
  intro k p hp
  rw [State.getElem?_properties_ofSnapshot] at hp
  obtain ⟨q, hq, hp⟩ := Option.bind_eq_some_iff.1 hp
  rw [Property.stored?] at hp
  split at hp
  · cases hp
  · cases hp
    have hkey : q.key = k := PropertyMap.key_of_getElem?_ofList hq
    exact hkey

/-! ### Empty differences -/

namespace Delta

theorem isEmpty_iff : d.isEmpty = true ↔ d.additions = [] ∧ d.removals = [] ∧ d.edits = [] := by
  rw [isEmpty, Bool.and_eq_true, Bool.and_eq_true, List.isEmpty_iff, List.isEmpty_iff,
    List.isEmpty_iff, and_assoc]

/-- Without removals, the parents of nothing that is gone end. -/
theorem not_ends_of_isGone (ho : o.nodes.Filed) (hd : between o c = .ok d) (hrem : d.removals = [])
    (hgone : o.nodes.isGone c.nodes id = true) : ¬ Ends o.nodes.parent? id := by
  intro hends
  obtain ⟨r, hr, -⟩ := (takes_iff ho hd).2 ⟨hends, id, .refl id, cascades_iff.2 (.inl hgone)⟩
  rw [hrem] at hr
  exact List.not_mem_nil hr

/-- Without changes, the objects are the same if the parents of all that is gone end. -/
theorem nodes_eq_iff (ho : o.nodes.Filed) (hc : c.nodes.Filed) (hd : between o c = .ok d)
    (hadd : d.additions = []) (hrem : d.removals = []) :
    o.nodes = c.nodes ↔
      ∀ id, o.nodes.isGone c.nodes id = true → Ends o.nodes.parent? id := by
  have hold {id : Ident} {n : Node} (hn : c.nodes[id]? = some n) : o.nodes[id]? = some n := by
    refine getElem?_old_of_not_adds hc hd ?_ hn
    rw [adds_eq_true_iff, hadd]
    exact List.not_mem_nil
  constructor
  · intro h id hgone
    rw [h, NodeMap.isGone_iff] at hgone
    exact absurd hgone.1 hgone.2
  · intro hends
    refine Std.ExtTreeMap.ext_getElem? fun id => Option.ext fun n => ⟨fun hn => ?_, hold⟩
    have hnew : id ∈ c.nodes := by
      by_contra hnew
      have hgone : o.nodes.isGone c.nodes id = true :=
        NodeMap.isGone_iff.2 ⟨NodeMap.mem_of_getElem?_eq_some hn, hnew⟩
      exact not_ends_of_isGone ho hd hrem hgone (hends id hgone)
    obtain ⟨m, hm⟩ := NodeMap.mem_iff_exists.1 hnew
    rw [hold hm] at hn
    exact hn ▸ hm

theorem not_edited (ho : o.properties.Filed) (hc : c.properties.Filed) (hd : between o c = .ok d)
    (hedits : d.edits = []) (e : Property) : ¬ Edited o c k e := by
  intro he
  have hkey : e.key = k := he.key_eq ho hc
  subst hkey
  have hmem := (mem_edits ho hc hd).2 he
  rw [hedits] at hmem
  exact List.not_mem_nil hmem

/-- Without edits, a workspace keeps equal values of both snapshots, unless one is gone. -/
theorem stored_beq_iff (ho : o.properties.Filed) (hc : c.properties.Filed) (hd : between o c = .ok d)
    (hedits : d.edits = []) :
    (∀ k : Property.Key, (o.properties[k]?.bind Property.stored? ==
        c.properties[k]?.bind Property.stored?) = true) ↔
      ∀ (k : Property.Key) (p : Property), o.properties[k]? = some p → c.properties[k]? = none →
        p.after.isNull = true := by
  constructor
  · intro h k p hp hq
    have hk := h k
    rw [hp, hq, Option.bind_some, Property.stored?] at hk
    by_contra hnull
    rw [if_neg hnull] at hk
    cases hk
  · intro h k
    rcases eq_of_unedited (not_edited ho hc hd hedits) with
      ⟨hp, hq⟩ | ⟨p, hp, hq, -⟩ | ⟨p, q, hp, hq, hsame, -⟩
    · rw [hp, hq]
      rfl
    · rw [hp, hq, Option.bind_some, Property.stored?, if_pos (h k p hp hq)]
      rfl
    · rw [hp, hq]
      exact Property.stored?_beq ((ho k p hp).trans (hc k q hq).symm) hsame

end Delta

/-! ### Identical snapshots -/

/-- Workspaces that hold two snapshots read the same if the objects are the same, and equal values are
kept of both. -/
theorem Workspace.snapshot_beq_iff (old new : Snapshot) :
    ((ofSnapshot old).snapshot == (ofSnapshot new).snapshot) = true ↔
      old.objects = new.objects ∧ ∀ k : Property.Key,
        ((Catalog.ofSnapshot old).properties[k]?.bind Property.stored? ==
          (Catalog.ofSnapshot new).properties[k]?.bind Property.stored?) = true := by
  rw [snapshot, snapshot, State.snapshot, State.snapshot, Snapshot.beq_def, Bool.and_eq_true,
    ofSnapshot, ofSnapshot, State.nodes_ofSnapshot, State.nodes_ofSnapshot,
    NodeMap.nodes_beq_iff (NodeMap.filed_ofList old.nodes) (NodeMap.filed_ofList new.nodes),
    PropertyMap.properties_beq_iff (State.filed_ofSnapshot old) (State.filed_ofSnapshot new)]
  simp only [State.getElem?_properties_ofSnapshot]
  rfl

namespace Comparison

/-- **When an empty difference means identical snapshots.**  Workspaces that hold the two snapshots of
a comparison without changes read the same exactly if the old parents of every object that is gone
end, and every value that is gone belongs to an object of the old snapshot. -/
theorem identical_iff_of_isEmpty (old new : Snapshot) (c : Comparison)
    (h : fresh.compare old new = (.ok (), c)) (hempty : c.delta.isEmpty = true) :
    ((Workspace.ofSnapshot old).snapshot == (Workspace.ofSnapshot new).snapshot) = true ↔
      (∀ id, old.objects.isGone new.objects id = true → Ends old.objects.parent? id) ∧
      ∀ (k : Property.Key) (p : Property), (Catalog.ofSnapshot old).properties[k]? = some p →
        (Catalog.ofSnapshot new).properties[k]? = none → p.after.isNull = false →
        k.owner ∈ old.objects := by
  obtain ⟨d, hd, rfl⟩ := compare_eq_ok_iff.1 h
  obtain ⟨hadd, hrem, hedits⟩ := Delta.isEmpty_iff.1 hempty
  have ho : (Catalog.ofSnapshot old).properties.Filed := PropertyMap.filed_ofList old.properties
  have hc : (Catalog.ofSnapshot new).properties.Filed := PropertyMap.filed_ofList new.properties
  have hnodes : old.objects = new.objects ↔
      ∀ id, old.objects.isGone new.objects id = true → Ends old.objects.parent? id :=
    Delta.nodes_eq_iff (NodeMap.filed_ofList old.nodes) (NodeMap.filed_ofList new.nodes) hd hadd hrem
  rw [Workspace.snapshot_beq_iff, Delta.stored_beq_iff ho hc hd hedits, ← hnodes]
  refine and_congr_right fun hsame => forall₄_congr fun k p hp hq => ?_
  -- an owner in the new snapshot would let the value be edited, and the old objects are the same
  have howner : k.owner ∉ old.objects := by
    rw [hsame, ← ho k p hp]
    exact fun hmem => Delta.not_edited ho hc hd hedits _ (.gone hp hq hmem)
  cases p.after.isNull with
  | true => simp
  | false => simp [howner]

/-- The objects are listed in another order, one of them twice; an object is its own parent; a value
stays without an owner, and a null value without an owner is gone. -/
theorem identical_of_reordered :
    let old : Snapshot := ⟨[⟨none, "T", ⟨"a"⟩, 0⟩, ⟨some ⟨"b"⟩, "T", ⟨"b"⟩, 0⟩],
      [.point ⟨"a"⟩ "x" .string (.ofText "1"), .point ⟨"z"⟩ "x" .string (.ofText "2"),
        .point ⟨"z"⟩ "y" .null .null]⟩
    let new : Snapshot := ⟨
      [⟨none, "U", ⟨"a"⟩, 1⟩, ⟨some ⟨"b"⟩, "T", ⟨"b"⟩, 0⟩, ⟨none, "T", ⟨"a"⟩, 0⟩],
      [.point ⟨"z"⟩ "x" .string (.ofText "2"), .point ⟨"a"⟩ "x" .string (.ofText "1")]⟩
    ∃ c, fresh.compare old new = (.ok (), c) ∧ c.delta.isEmpty = true ∧
      ((Workspace.ofSnapshot old).snapshot == (Workspace.ofSnapshot new).snapshot) = true := by
  intro old new
  have hc : fresh.compare old new = (.ok (), (fresh.compare old new).2) := Prod.ext (by rfl) rfl
  have hempty : (fresh.compare old new).2.delta.isEmpty = true := by decide +kernel
  have hkeys : ∀ id ∈ old.objects.keys, id ∈ new.objects := by decide +kernel
  have howners : ∀ p ∈ old.properties, (Catalog.ofSnapshot new).properties[p.key]? = none →
      p.after.isNull = true := by decide +kernel
  refine ⟨_, hc, hempty, (identical_iff_of_isEmpty old new _ hc hempty).2 ⟨?_, ?_⟩⟩
  · intro id hgone
    rw [NodeMap.isGone_iff] at hgone
    exact absurd (hkeys id (Std.ExtTreeMap.mem_keys.2 hgone.1)) hgone.2
  · intro k p hp hq hnull
    have hkey : p.key = k := PropertyMap.key_of_getElem?_ofList hp
    rw [howners p (PropertyMap.mem_of_getElem?_ofList hp) (hkey.symm ▸ hq)] at hnull
    cases hnull

/-- A value without an owner goes in silence. -/
theorem empty_without_owner : ¬ ∀ (old new : Snapshot) (c : Comparison),
    fresh.compare old new = (.ok (), c) → c.delta.isEmpty = true →
      ((Workspace.ofSnapshot old).snapshot == (Workspace.ofSnapshot new).snapshot) = true := by
  intro h
  have hc : fresh.compare ⟨[], [.point ⟨"a"⟩ "x" .string (.ofText "1")]⟩ .empty = (.ok (),
      (fresh.compare ⟨[], [.point ⟨"a"⟩ "x" .string (.ofText "1")]⟩ .empty).2) :=
    Prod.ext (by rfl) rfl
  exact absurd (h _ _ _ hc (by decide +kernel)) (by decide +kernel)

end Comparison

end GraphDelta
