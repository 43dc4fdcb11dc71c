/-
**What an export makes of a workspace.**

An export sends a graph to another workspace as one transaction: a begin, the objects, the properties,
a commit.  It stops at the first call that is refused.  Nothing is committed then, but nobody drops the
transaction either, so that the other workspace refuses every further begin until it is rolled back.

Whether an export gets to its end depends on the two graphs only, and not on the order in which things
are sent.  It is hindered by an object that the other workspace has already, and by a property whose
owner neither of them has.

Main definitions:

* `Workspace.State.Fits` — nothing hinders the export of a graph on top of another;
* `Workspace.State.Joined` — the one graph on top of the other;
* `Workspace.State.Hinders` — what an export can be refused for;
* `Workspace.Settled` — an export is done or dropped.

Main results:

* `Workspace.State.fits_of_run`, `Workspace.State.joined_of_run` — an export that gets through fits,
  and brings everything along;
* `Workspace.State.hinders_of_run` — an export that is refused is refused for a reason;
* `Workspace.export_settled_iff` — **an export is settled exactly if the graph fits**.
-/
import GraphDelta.Proofs.Coherence

set_option autoImplicit false

namespace GraphDelta

variable {id : Ident} {n : Node} {k : Property.Key} {p : Property} {e : Refusal}

namespace Workspace

/-! ### Runs that are refused -/

namespace Transaction

variable {t t' : Transaction}

/-- A run of additions of different objects is refused for an object that was there at the start. -/
theorem duplicate_of_run {ns : List Node} (hnodup : (ns.map Node.id).Nodup)
    (h : t.run (ns.map Node.addition) = (.error e, t')) :
    ∃ n ∈ ns, n.id ∈ t.state.nodes ∧ e = .duplicate n.id := by
  induction ns generalizing t with
  | nil => cases h
  | cons n ns ih =>
      rw [List.map_cons, List.nodup_cons] at hnodup
      rw [List.map_cons, run, Sink.send] at h
      rcases hn : t.apply n.addition with ⟨e' | u, t₁⟩
      · rw [hn] at h
        cases h
        rw [apply_addition, add] at hn
        split at hn
        · rename_i hmem
          cases hn
          exact ⟨n, List.mem_cons_self, Std.ExtTreeMap.mem_iff_contains.2 hmem, rfl⟩
        · cases hn
      · rw [hn] at h
        obtain ⟨a, ha, hmem, he⟩ := ih hnodup.2 h
        obtain ⟨m, hm⟩ := NodeMap.mem_iff_exists.1 hmem
        rcases ((gains_of_addition hn).nodes a.id m).1 hm with hm | ⟨hmn, hid⟩
        · exact ⟨a, List.mem_cons_of_mem n ha, NodeMap.mem_of_getElem?_eq_some hm, he⟩
        · cases List.mem_singleton.1 hmn
          exact absurd (List.mem_map.2 ⟨a, ha, hid.symm⟩) hnodup.1

/-- A run of edits that insist on nothing is refused for an owner that is not there. -/
theorem unknown_of_run {ps : List Property}
    (h : t.run (ps.map (Property.call .plain)) = (.error e, t')) :
    ∃ p ∈ ps, p.owner ∉ t.state.nodes ∧ e = .unknown p.owner := by
  induction ps generalizing t with
  | nil => cases h
  | cons p ps ih =>
      rw [List.map_cons, run, Sink.send] at h
      rcases hp : t.apply (p.call .plain) with ⟨e' | u, t₁⟩
      · rw [hp] at h
        cases h
        rw [Property.call, apply, set] at hp
        split at hp
        · cases hp
        · rename_i hmem
          cases hp
          exact ⟨p, List.mem_cons_self, Std.ExtTreeMap.mem_iff_contains.not.2 hmem, rfl⟩
      · rw [hp] at h
        obtain ⟨q, hq, hmem, he⟩ := ih h
        rw [(edits_of_apply hp).nodes] at hmem
        exact ⟨q, List.mem_cons_of_mem p hq, hmem, he⟩

end Transaction

/-! ### One graph on top of another -/

namespace State

variable {s base s' : State} {t : Transaction}

/-- Nothing hinders the export of a graph on top of another. -/
structure Fits (s base : State) : Prop where
  free : ∀ id ∈ s.nodes, id ∉ base.nodes
  /-- Every property belongs to an object of one of the two. -/
  owned : ∀ k ∈ s.properties, k.owner ∈ s.nodes ∨ k.owner ∈ base.nodes

instance (s base : State) : Decidable (s.Fits base) :=
  decidable_of_iff ((∀ id ∈ s.nodes.keys, id ∉ base.nodes) ∧
      ∀ k ∈ s.properties.keys, k.owner ∈ s.nodes ∨ k.owner ∈ base.nodes)
    ⟨fun h => ⟨fun id hid => h.1 id (Std.ExtTreeMap.mem_keys.2 hid),
      fun k hk => h.2 k (Std.ExtTreeMap.mem_keys.2 hk)⟩,
    fun h => ⟨fun id hid => h.free id (Std.ExtTreeMap.mem_keys.1 hid),
      fun k hk => h.owned k (Std.ExtTreeMap.mem_keys.1 hk)⟩⟩

/-- The one graph on top of the other: everything of the one, and what else the other has. -/
structure Joined (s base s' : State) : Prop where
  /-- An empty parent stands for none. -/
  nodes : ∀ id : Ident, s'.nodes[id]? = (s.nodes[id]?.map fun n =>
    { parent := n.parent.filter (!·.isEmpty), typeTag := n.typeTag, id := n.id, index := n.index }).or
      base.nodes[id]?
  properties : ∀ k : Property.Key, s'.properties[k]? = s.properties[k]?.or base.properties[k]?

/-- What an export can be refused for. -/
inductive Hinders (s base : State) : Refusal → Prop
  | duplicate {id : Ident} : id ∈ s.nodes → id ∈ base.nodes → Hinders s base (.duplicate id)
  | unknown {k : Property.Key} : k ∈ s.properties → k.owner ∉ s.nodes → k.owner ∉ base.nodes →
      Hinders s base (.unknown k.owner)

theorem Hinders.not_fits (h : s.Hinders base e) : ¬ s.Fits base := by
  intro hfits
  cases h with
  | duplicate hid hbase => exact hfits.free _ hid hbase
  | unknown hk hs hbase => exact (hfits.owned _ hk).elim hs hbase

theorem mem_exported (hs : s.Recorded) : n ∈ s.exported ↔ s.nodes[n.id]? = some n := by
  have hnodes : n ∈ s.nodes.nodes ↔ s.nodes[n.id]? = some n := mem_map_snd_toList hs.nodes
  rw [exported, ← hnodes, List.mem_map]
  simp only [mem_stableSort, List.mem_map]
  constructor
  · rintro ⟨-, ⟨m, hm, rfl⟩, rfl⟩
    exact hm
  · intro hn
    exact ⟨(s.depth n.id, n), ⟨n, hn, rfl⟩, rfl⟩

theorem nodup_exported (hs : s.Recorded) : (s.exported.map Node.id).Nodup := by
  have hperm : s.exported.Perm s.nodes.nodes := by
    have hsort := (stableSort_perm (fun a b => (exportOrder a b).isLE)
      (s.nodes.nodes.map fun n => (s.depth n.id, n))).map Prod.snd
    rw [List.map_map] at hsort
    exact hsort.trans (.of_eq (List.map_id _))
  have hkeys : s.nodes.nodes.map Node.id = s.nodes.keys := map_key_snd_toList hs.nodes
  rw [(hperm.map Node.id).nodup_iff, hkeys]
  exact Std.ExtTreeMap.nodup_keys

theorem nodup_properties (hs : s.Recorded) : (s.properties.properties.map Property.key).Nodup := by
  have hkeys : s.properties.properties.map Property.key = s.properties.keys :=
    map_key_snd_toList hs.properties
  rw [hkeys]
  exact Std.ExtTreeMap.nodup_keys

theorem mem_properties (hs : s.Recorded) :
    p ∈ s.properties.properties ↔ s.properties[p.key]? = some p := mem_map_snd_toList hs.properties

theorem Recorded.stored?_eq (hs : s.Recorded) (hp : s.properties[k]? = some p) :
    p.stored? = some p := by
  obtain ⟨hvalue, hedit⟩ := hs.point k p hp
  rw [Property.stored?, hs.isNull_eq k p hp, ← p.point_eq_outcome,
    Property.point_eq_self hvalue hedit]
  rfl

/-! ### What is sent -/

/-- What an export sends between the begin and the commit. -/
def exportChanges (s : State) : List Call :=
  s.exported.map Node.addition ++ s.properties.properties.map (Property.call .plain)

theorem exportCalls_eq (s : State) : s.exportCalls = .begin :: s.exportChanges ++ [.commit] := rfl

theorem isControl_of_mem_exportChanges {c : Call} (hc : c ∈ s.exportChanges) :
    c.isControl = false := by
  rw [exportChanges, List.mem_append, List.mem_map, List.mem_map] at hc
  obtain ⟨n, -, rfl⟩ | ⟨p, -, rfl⟩ := hc
  · rfl
  · rfl

theorem fits_of_run (hs : s.Recorded)
    (h : Transaction.run s.exportChanges ⟨base, ∅⟩ = (.ok (), t)) : s.Fits base := by
  obtain ⟨t₁, ht₁, ht⟩ := Transaction.run_append_eq_ok_iff.1 h
  constructor
  · intro id hid
    obtain ⟨n, hn⟩ := NodeMap.mem_iff_exists.1 hid
    cases hs.nodes id n hn
    exact Transaction.free_of_run ht₁ ((mem_exported hs).2 hn)
  · intro k hk
    obtain ⟨p, hp⟩ := Option.isSome_iff_exists.1 (Std.ExtTreeMap.mem_iff_isSome_getElem?.1 hk)
    cases hs.properties k p hp
    have hready := (Transaction.exists_run_edits_iff (nodup_properties hs)).1 ⟨t, ht⟩ p
      ((mem_properties hs).2 hp)
    obtain ⟨m, hm⟩ := NodeMap.mem_iff_exists.1 hready.1
    rcases ((Transaction.gains_of_run ht₁).nodes p.owner m).1 hm with hm | ⟨hm, hid⟩
    · exact .inr (NodeMap.mem_of_getElem?_eq_some hm)
    · obtain ⟨n, hn, rfl⟩ := List.mem_map.1 hm
      have hid : n.id = p.owner := hid
      exact .inl (NodeMap.mem_of_getElem?_eq_some (hid ▸ (mem_exported hs).1 hn))

/-- An export that gets through brings everything along, and leaves what else is there alone. -/
theorem joined_of_run (hs : s.Recorded)
    (h : Transaction.run s.exportChanges ⟨base, ∅⟩ = (.ok (), t)) : s.Joined base t.state := by
  have hfits := fits_of_run hs h
  obtain ⟨t₁, ht₁, ht⟩ := Transaction.run_append_eq_ok_iff.1 h
  have hgains := Transaction.gains_of_run ht₁
  have hedits := Transaction.edits_of_run (nodup_properties hs) ht
  constructor
  · intro id
    refine Option.ext fun m => ?_
    rw [hedits.nodes, hgains.nodes, List.mem_map]
    cases hn : s.nodes[id]? with
    | some n =>
        cases hs.nodes id n hn
        have hfree : base.nodes[n.id]? = none :=
          Std.ExtTreeMap.getElem?_eq_none (hfits.free n.id (NodeMap.mem_of_getElem?_eq_some hn))
        rw [hfree, Option.map_some, Option.some_or, Option.some_inj]
        constructor
        · rintro (hm | ⟨⟨a, ha, rfl⟩, hid⟩)
          · cases hm
          · have ha := (mem_exported hs).1 ha
            have hid : a.id = n.id := hid
            rw [hid, hn] at ha
            cases ha
            rfl
        · rintro rfl
          exact .inr ⟨⟨n, (mem_exported hs).2 hn, rfl⟩, rfl⟩
    | none =>
        rw [Option.map_none, Option.none_or]
        refine ⟨fun hm => hm.resolve_right ?_, .inl⟩
        rintro ⟨⟨a, ha, rfl⟩, rfl⟩
        have ha : s.nodes[a.stored.id]? = some a := (mem_exported hs).1 ha
        rw [hn] at ha
        cases ha
  · intro k
    cases hp : s.properties[k]? with
    | some p =>
        cases hs.properties k p hp
        rw [hedits.set p ((mem_properties hs).2 hp), hs.stored?_eq hp, Option.some_or]
    | none =>
        rw [Option.none_or, hedits.other k, hgains.properties]
        rintro p hp' rfl
        rw [(mem_properties hs).1 hp'] at hp
        cases hp

theorem hinders_of_run (hs : s.Recorded)
    (h : Transaction.run s.exportChanges ⟨base, ∅⟩ = (.error e, t)) : s.Hinders base e := by
  rw [exportChanges, Transaction.run, Sink.send_append] at h
  rcases hadd : Sink.send Transaction.apply (s.exported.map Node.addition) ⟨base, ∅⟩ with
    ⟨e' | u, t₁⟩
  · rw [hadd] at h
    cases h
    obtain ⟨n, hn, hbase, rfl⟩ := Transaction.duplicate_of_run (nodup_exported hs) hadd
    exact .duplicate (NodeMap.mem_of_getElem?_eq_some ((mem_exported hs).1 hn)) hbase
  · rw [hadd] at h
    obtain ⟨p, hp, hmem, rfl⟩ := Transaction.unknown_of_run h
    have hgains := Transaction.gains_of_run hadd
    have hk : p.key ∈ s.properties := by
      rw [Std.ExtTreeMap.mem_iff_isSome_getElem?, (mem_properties hs).1 hp]
      rfl
    refine .unknown hk ?_ ?_
    · intro hs'
      obtain ⟨n, hn⟩ := NodeMap.mem_iff_exists.1 hs'
      have hid : n.id = p.owner := hs.nodes p.owner n hn
      refine hmem (NodeMap.mem_of_getElem?_eq_some ((hgains.nodes p.owner n.stored).2 (.inr ?_)))
      exact ⟨List.mem_map_of_mem ((mem_exported hs).2 (hid ▸ hn)), hid⟩
    · intro hbase
      obtain ⟨n, hn⟩ := NodeMap.mem_iff_exists.1 hbase
      exact hmem (NodeMap.mem_of_getElem?_eq_some ((hgains.nodes p.owner n).2 (.inl hn)))

end State

/-! ### Exports -/

variable {s base : State} {w : Workspace} {r : Except Refusal Unit × Workspace}

/-- An export to a workspace without a transaction commits what its calls make of the graph, or leaves
a transaction open. -/
theorem exportTo_into_closed (w : Workspace) (base : State) :
    w.exportTo sink ⟨base, none⟩ =
      match Transaction.run w.committed.exportChanges ⟨base, ∅⟩ with
      | (.ok (), t) => (.ok (), ⟨t.state, none⟩)
      | (.error e, t) => (.error e, ⟨base, some t⟩) := by
  have hbegin : sink .begin ⟨base, none⟩ = (.ok (), ⟨base, some ⟨base, ∅⟩⟩) := rfl
  have hcontrol : ∀ c ∈ w.committed.exportChanges, c.isControl = false :=
    fun c hc => State.isControl_of_mem_exportChanges hc
  rw [exportTo, State.exportCalls_eq, List.cons_append, Sink.send, hbegin]
  simp only [Sink.send_append, send_within hcontrol]
  rcases Transaction.run w.committed.exportChanges ⟨base, ∅⟩ with ⟨e | u, t⟩
  · rfl
  · rfl

/-- An export to a workspace is done, with everything committed on top of what was there, or dropped,
with nothing changed; no transaction is open. -/
inductive Settled (s base : State) : Except Refusal Unit × Workspace → Prop
  | done {s' : State} : s.Joined base s' → Settled s base (.ok (), ⟨s', none⟩)
  | dropped (e : Refusal) : Settled s base (.error e, ⟨base, none⟩)

theorem Settled.begin (h : Settled s base r) : (sink .begin r.2).1 = .ok () := by
  cases h with
  | done => rfl
  | dropped => rfl

/-- **An export is settled exactly if the graph fits**, whatever has become of the exported workspace
before.  Where it does not fit, the export is refused for a reason and nothing is committed, but the
transaction stays open: a begin is refused, until a rollback drops the transaction. -/
theorem export_settled_iff (s : Snapshot) (cs : List Call) (base : State) :
    let w := sink.drive cs (.ofSnapshot s)
    (Settled w.committed base (w.exportTo sink ⟨base, none⟩) ↔ w.committed.Fits base) ∧
    (¬ w.committed.Fits base → ∃ e t,
      w.exportTo sink ⟨base, none⟩ = (.error e, ⟨base, some t⟩) ∧ w.committed.Hinders base e ∧
      sink .begin ⟨base, some t⟩ = (.error .transactionOpen, ⟨base, some t⟩) ∧
      sink .rollback ⟨base, some t⟩ = (.ok (), ⟨base, none⟩)) := by
  intro w
  have hw : w.committed.Recorded := recorded_drive s cs
  rw [exportTo_into_closed w base]
  rcases hrun : Transaction.run w.committed.exportChanges ⟨base, ∅⟩ with ⟨e | u, t⟩
  · have hhinders := State.hinders_of_run hw hrun
    refine ⟨iff_of_false ?_ hhinders.not_fits, fun _ => ⟨e, t, rfl, hhinders, rfl, rfl⟩⟩
    rintro ⟨⟩
  · have hfits := State.fits_of_run hw hrun
    exact ⟨iff_of_true (.done (State.joined_of_run hw hrun)) hfits, fun h => absurd hfits h⟩

/-- A property without an owner fits on top of a graph that has the owner, and not on top of nothing:
there the export leaves a transaction open. -/
theorem export_settled_with_borrowed_owner :
    let w : Workspace := .ofSnapshot ⟨[⟨none, "T", ⟨"a"⟩, 0⟩],
      [.point ⟨"a"⟩ "x" .string (.ofText "1"), .point ⟨"b"⟩ "y" .string (.ofText "2")]⟩
    let base : State := .ofSnapshot ⟨[⟨none, "T", ⟨"b"⟩, 0⟩], []⟩
    Settled w.committed base (w.exportTo sink ⟨base, none⟩) ∧
    (w.exportTo sink ⟨base, none⟩).2.snapshot = ⟨
      [⟨none, "T", ⟨"a"⟩, 0⟩, ⟨none, "T", ⟨"b"⟩, 0⟩],
      [⟨⟨"a"⟩, "x", .string, .ofText "1", .ofText "1", false⟩,
        ⟨⟨"b"⟩, "y", .string, .ofText "2", .ofText "2", false⟩]⟩ ∧
    ∃ e t, w.exportTo sink .empty = (.error e, ⟨.empty, some t⟩) ∧
      w.committed.Hinders .empty e := by
  intro w base
  have hfits : w.committed.Fits base := by decide +kernel
  have hno : ¬ w.committed.Fits .empty := by decide +kernel
  obtain ⟨e, t, ht, he, -⟩ := (export_settled_iff _ [] .empty).2 hno
  exact ⟨(export_settled_iff _ [] base).1.2 hfits, by decide +kernel, e, t, ht, he⟩

/-- Not every export to a workspace without a transaction is settled: an object that is there already
leaves a transaction open. -/
theorem export_unsettled_by_duplicate : ¬ ∀ (s : Snapshot) (cs : List Call) (base : State),
    let w := sink.drive cs (.ofSnapshot s)
    Settled w.committed base (w.exportTo sink ⟨base, none⟩) := by
  intro h
  let s : Snapshot := ⟨[⟨none, "T", ⟨"a"⟩, 0⟩], []⟩
  have hbegin := (h s [] (.ofSnapshot s)).begin
  have hrefused : (sink .begin ((Workspace.ofSnapshot s).exportTo sink (.ofSnapshot s)).2).1 =
      .error .transactionOpen := by decide +kernel
  cases hbegin.symm.trans hrefused

end Workspace

end GraphDelta
