/-
**What a replay does to any graph.**

A replay may meet a graph that has nothing to do with the old snapshot of the comparison: objects may
have come and gone, values may have changed, parents may be missing or run in a cycle.  If it succeeds
all the same, then it has done what it was meant to.  It has taken what lay below the removed objects
in the graph that it met, added the additions and set the properties, and nothing else.

The edits of a conditional replay insist on the values before.  These are values of the graph that the
replay met: what it does before an edit does not touch them, unless the object is one of the additions.

Main definitions:

* `Comparison.Derived` — a comparison of two snapshots, with its additions sorted or freed of the top;
* `Workspace.State.Replayed` — a graph has become another one by the removals, additions and edits.

Main results:

* `Comparison.Derived.nodup_edits` — such a comparison edits no key twice;
* `Comparison.exists_phases_of_replay` — a replay that succeeds has gone through its phases;
* `Comparison.replay_effect` — **what a replay does to any graph**;
* `Comparison.conditional_replay_insists` — **a conditional replay overwrites no other value**.
-/
import GraphDelta.Proofs.Edits
import GraphDelta.Proofs.Phases
import GraphDelta.Proofs.Ranking

set_option autoImplicit false

namespace GraphDelta

variable {old new : Snapshot} {c c' : Comparison} {mode : Replay.Mode}

/-! ### Comparisons that were worked on -/

theorem Delta.edits_sublist_of_omitRoot? {d d' : Delta} {place : Ident} {newRoot : Option Ident}
    (h : d.omitRoot? place newRoot = some d') : d'.edits.Sublist d.edits := by
  rw [omitRoot?] at h
  obtain ⟨root, -, hroot⟩ := Option.bind_eq_some_iff.1 h
  cases hroot
  exact List.filter_sublist

namespace Comparison

theorem edits_of_sort (h : c.sort = .ok c') : c'.delta.edits = c.delta.edits := by
  cases c with
  | fresh => cases h
  | failed => cases h
  | done o n d =>
      rw [sort] at h
      cases hl : replayOrder d.additions n.nodes with
      | error f => rw [hl] at h; cases h
      | ok l => rw [hl] at h; cases h; rfl

theorem edits_sublist_of_omitRoot {place : Ident} {newRoot : Option Ident} {found : Bool}
    (h : c.omitRoot place newRoot = .ok (found, c')) : c'.delta.edits.Sublist c.delta.edits := by
  cases c with
  | fresh => cases h
  | failed => cases h
  | done o n d =>
      rw [omitRoot] at h
      cases hd : d.omitRoot? place newRoot with
      | none => rw [hd] at h; cases h; exact .refl d.edits
      | some d' => rw [hd] at h; cases h; exact Delta.edits_sublist_of_omitRoot? hd

/-- A comparison of two snapshots, after its additions have been sorted or freed of their top any
number of times. -/
inductive Derived (old new : Snapshot) : Comparison → Prop
  | compared {c : Comparison} : fresh.compare old new = (.ok (), c) → Derived old new c
  | sorted {c c' : Comparison} : Derived old new c → c.sort = .ok c' → Derived old new c'
  | freed {c c' : Comparison} {place : Ident} {newRoot : Option Ident} {found : Bool} :
      Derived old new c → c.omitRoot place newRoot = .ok (found, c') → Derived old new c'

/-- The edits of a comparison that was worked on are some of those of the difference. -/
theorem Derived.exists_between (h : Derived old new c) :
    ∃ d, Delta.between (.ofSnapshot old) (.ofSnapshot new) = .ok d ∧
      c.delta.edits.Sublist d.edits := by
  induction h with
  | compared h =>
      obtain ⟨d, hd, rfl⟩ := compare_eq_ok_iff.1 h
      exact ⟨d, hd, .refl d.edits⟩
  | sorted _ h ih =>
      obtain ⟨d, hd, hedits⟩ := ih
      exact ⟨d, hd, edits_of_sort h ▸ hedits⟩
  | freed _ h ih =>
      obtain ⟨d, hd, hedits⟩ := ih
      exact ⟨d, hd, (edits_sublist_of_omitRoot h).trans hedits⟩

theorem Derived.nodup_edits (h : Derived old new c) : (c.delta.edits.map Property.key).Nodup := by
  obtain ⟨d, hd, hedits⟩ := h.exists_between
  exact (Delta.nodup_edits (PropertyMap.filed_ofList old.properties)
    (PropertyMap.filed_ofList new.properties) hd).sublist (hedits.map Property.key)

theorem perm_of_order_eq_ok {l : List Node} (h : c.order = .ok l) : l.Perm c.delta.additions := by
  cases c with
  | fresh => cases h
  | failed => cases h
  | done o n d => exact perm_of_replayOrder_eq_ok h

end Comparison

/-! ### The effect of a replay -/

open Workspace (State Transaction)

variable {base : State} {tally : Replay.Tally} {w : Workspace}

namespace Comparison

/-- A replay that succeeds has made the removals and the additions, and then the edits. -/
theorem exists_phases_of_replay
    (h : c.replay mode Workspace.sink ⟨base, none⟩ = (.ok tally, w)) :
    ∃ (l : List Node) (t t' : Transaction), l.Perm c.delta.additions ∧
      Transaction.run (c.delta.removals.map Node.removal ++ l.map Node.addition) ⟨base, ∅⟩ =
        (.ok (), t) ∧
      t.run (c.delta.edits.map (Property.call mode)) = (.ok (), t') ∧ w = ⟨t'.state, none⟩ := by
  rw [replay_into_closed] at h
  cases hl : c.order with
  | error e => rw [hl] at h; cases h
  | ok l =>
      simp only [hl] at h
      rcases hrun : Transaction.run (c.delta.calls mode l) ⟨base, ∅⟩ with ⟨e | u, t'⟩
      · rw [hrun] at h
        cases h
      · rw [hrun] at h
        cases h
        obtain ⟨t, ht, ht'⟩ := Transaction.run_append_eq_ok_iff.1 hrun
        exact ⟨l, t, t', perm_of_order_eq_ok hl, ht, ht', rfl⟩

end Comparison

/-- A graph has become another one by the removals, the additions and the edits of a difference. -/
structure Workspace.State.Replayed (base : State) (d : Delta) (s : State) : Prop where
  removed : ∀ r ∈ d.removals, ∃ n, base.nodes[r.id]? = some n ∧ n.parent = r.parent
  added : ∀ n ∈ d.additions, n.id ∈ base.nodes → d.Takes base.nodes n.id
  /-- The objects are those that are not taken, and those that are added; an empty parent stands for
  none. -/
  nodes : ∀ (id : Ident) (n : Node), s.nodes[id]? = some n ↔
    (base.nodes[id]? = some n ∧ ¬ d.Takes base.nodes id) ∨
    ∃ a ∈ d.additions, a.id = id ∧
      n = { parent := a.parent.filter (!·.isEmpty), typeTag := a.typeTag, id := a.id, index := a.index }
  /-- A property that is edited has its value after, at a point in time, or is not there for null. -/
  edited : ∀ e ∈ d.edits, s.properties[(⟨e.owner, e.name⟩ : Property.Key)]? =
    if e.after = .null then none
    else some {
      owner := e.owner, name := e.name, type := e.type
      before := e.after, after := e.after, isEdit := false }
  /-- Any other property is what it was, unless its object is taken. -/
  unedited : ∀ k : Property.Key, (∀ e ∈ d.edits, ⟨e.owner, e.name⟩ ≠ k) → ∀ p,
    s.properties[k]? = some p ↔ base.properties[k]? = some p ∧ ¬ d.Takes base.nodes k.owner

namespace Comparison

/-- **What a replay does to any graph.**  Where it succeeds, it leaves no transaction open.  Of the
objects of the graph those remain that did not lie below a removed one, and the additions come to them;
the edited properties have their values after, and the others are what they were unless they went with
their objects. -/
theorem replay_effect (h : c.Derived old new)
    (hreplay : c.replay mode Workspace.sink ⟨base, none⟩ = (.ok tally, w)) :
    w.pending = none ∧ base.Replayed c.delta w.committed := by
  obtain ⟨l, t, t', hl, ht, ht', rfl⟩ := exists_phases_of_replay hreplay
  obtain ⟨t₁, ht₁, ht₂⟩ := Transaction.run_append_eq_ok_iff.1 ht
  have hloses : Transaction.Loses (c.delta.Takes base.nodes) ⟨base, ∅⟩ t₁ :=
    Transaction.loses_of_run ht₁
  have hex : Transaction.Exchanges (c.delta.Takes base.nodes) (l.map Node.stored) ⟨base, ∅⟩ t :=
    Transaction.exchanges_of_run ht
  have hedits := Transaction.edits_of_run h.nodup_edits ht'
  refine ⟨rfl, ?_, ?_, ?_, fun e he => (hedits.set e he).trans e.stored?_eq_ite, ?_⟩
  · intro r hr
    exact Transaction.present_of_run ht₁ hr
  · intro n hn hmem
    by_contra hno
    obtain ⟨a, ha⟩ := NodeMap.mem_iff_exists.1 hmem
    exact Transaction.free_of_run ht₂ (hl.mem_iff.2 hn)
      (NodeMap.mem_of_getElem?_eq_some ((hloses.nodes n.id a).2 ⟨ha, hno⟩))
  · intro id n
    rw [hedits.nodes, hex.nodes, (hl.map Node.stored).mem_iff, List.mem_map]
    refine or_congr_right ⟨?_, ?_⟩
    · rintro ⟨⟨a, ha, rfl⟩, rfl⟩
      exact ⟨a, ha, rfl, rfl⟩
    · rintro ⟨a, ha, rfl, rfl⟩
      exact ⟨⟨a, ha, rfl⟩, rfl⟩
  · intro k hk p
    rw [hedits.other k hk, hex.properties]

/-- The top of the additions is left out, and the parent of another one is empty.  The graph has another
object below the removed one than the old snapshot, an object that is its own parent, and one whose
parent is missing.  One value is set to null. -/
theorem replay_effect_on_drifted_graph :
    let old : Snapshot := ⟨
      [⟨none, "T", ⟨"a"⟩, 0⟩, ⟨some ⟨"a"⟩, "T", ⟨"g"⟩, 0⟩, ⟨some ⟨"g"⟩, "T", ⟨"h"⟩, 0⟩],
      [.point ⟨"a"⟩ "x" .string (.ofText "1"), .point ⟨"a"⟩ "y" .string (.ofText "6")]⟩
    let new : Snapshot := ⟨
      [⟨none, "T", ⟨"a"⟩, 0⟩, ⟨some ⟨"a"⟩, "T", ⟨"t"⟩, 0⟩, ⟨some ⟨"t"⟩, "U", ⟨"c"⟩, 3⟩,
        ⟨some ⟨""⟩, "V", ⟨"e"⟩, 4⟩],
      [.point ⟨"a"⟩ "x" .string (.ofText "2"), .point ⟨"c"⟩ "x" .long (.ofText "3")]⟩
    let base : State := .ofSnapshot ⟨
      [⟨some ⟨"b"⟩, "T", ⟨"a"⟩, 7⟩, ⟨some ⟨"a"⟩, "T", ⟨"g"⟩, 0⟩, ⟨some ⟨"g"⟩, "T", ⟨"z"⟩, 0⟩,
        ⟨some ⟨"u"⟩, "T", ⟨"u"⟩, 0⟩, ⟨some ⟨"u"⟩, "T", ⟨"v"⟩, 0⟩],
      [.point ⟨"a"⟩ "x" .string (.ofText "1"), .point ⟨"a"⟩ "y" .string (.ofText "6"),
        .point ⟨"z"⟩ "x" .string (.ofText "4"), .point ⟨"v"⟩ "x" .string (.ofText "5")]⟩
    let c : Comparison := .done (.ofSnapshot old) (.ofSnapshot new) ⟨
      [⟨some ⟨"b"⟩, "U", ⟨"c"⟩, 3⟩, ⟨some ⟨""⟩, "V", ⟨"e"⟩, 4⟩], [⟨some ⟨"a"⟩, "T", ⟨"g"⟩, 0⟩],
      [⟨⟨"a"⟩, "x", .string, .ofText "1", .ofText "2", true⟩,
        ⟨⟨"a"⟩, "y", .string, .ofText "6", .null, true⟩,
        ⟨⟨"c"⟩, "x", .long, .null, .ofText "3", true⟩]⟩
    c.Derived old new ∧ ∃ w : Workspace,
      c.replay .conditional Workspace.sink ⟨base, none⟩ = (.ok ⟨1, 2, 3⟩, w) ∧
      w.pending = none ∧ base.Replayed c.delta w.committed ∧
      w.snapshot = ⟨
        [⟨some ⟨"b"⟩, "T", ⟨"a"⟩, 7⟩, ⟨some ⟨"b"⟩, "U", ⟨"c"⟩, 3⟩, ⟨none, "V", ⟨"e"⟩, 4⟩,
          ⟨some ⟨"u"⟩, "T", ⟨"u"⟩, 0⟩, ⟨some ⟨"u"⟩, "T", ⟨"v"⟩, 0⟩],
        [⟨⟨"a"⟩, "x", .string, .ofText "2", .ofText "2", false⟩,
          ⟨⟨"c"⟩, "x", .long, .ofText "3", .ofText "3", false⟩,
          ⟨⟨"v"⟩, "x", .string, .ofText "5", .ofText "5", false⟩]⟩ := by
  intro old new base c
  have hcompared : Derived old new (fresh.compare old new).2 := .compared (Prod.ext (by rfl) rfl)
  have homitted : (fresh.compare old new).2.omitRoot ⟨"a"⟩ (some ⟨"b"⟩) = .ok (true, c) := by rfl
  have hreplay : c.replay .conditional Workspace.sink ⟨base, none⟩ = (.ok ⟨1, 2, 3⟩, _) :=
    Prod.ext (by decide +kernel) rfl
  obtain ⟨hpending, hreplayed⟩ := replay_effect (hcompared.freed homitted) hreplay
  exact ⟨hcompared.freed homitted, _, hreplay, hpending, hreplayed, by decide +kernel⟩

/-! ### The values before -/

/-- Where a conditional replay succeeds, the object of an edit was there before, with the value before,
unless it is one of the additions. -/
theorem current_of_conditional_replay (h : c.Derived old new)
    (hreplay : c.replay .conditional Workspace.sink ⟨base, none⟩ = (.ok tally, w)) {e : Property}
    (he : e ∈ c.delta.edits) (hadds : c.delta.adds e.owner = false) :
    e.owner ∈ base.nodes ∧ (base.value e.key == e.before) = true := by
  obtain ⟨l, t, t', hl, ht, ht', -⟩ := exists_phases_of_replay hreplay
  have hex := Transaction.exchanges_of_run ht
  obtain ⟨hmem, hvalue⟩ := (Transaction.exists_run_edits_iff h.nodup_edits).1 ⟨t', ht'⟩ e he
  have hne : ∀ n ∈ l.map Node.stored, n.id ≠ e.owner := by
    intro n hn hid
    obtain ⟨a, ha, rfl⟩ := List.mem_map.1 hn
    refine Bool.eq_false_iff.1 hadds (Delta.adds_eq_true_iff.2 ?_)
    exact List.mem_map.2 ⟨a, hl.mem_iff.1 ha, hid⟩
  -- the object has no mark, so that the edit has insisted on a value that the removals have left
  obtain ⟨hold, hgone⟩ := hex.mem_of_mem hne hmem
  have hcreated : e.owner ∉ t.created := by
    rw [hex.created]
    rintro (⟨hempty, -⟩ | ⟨n, hn, hid⟩)
    · exact Std.ExtTreeSet.not_mem_empty hempty
    · exact hne n hn hid
  have hkeep : t.state.value e.key = base.value e.key := hex.value_eq hgone
  exact ⟨hold, hkeep ▸ (hvalue rfl).resolve_left hcreated⟩

/-- **A conditional replay overwrites no other value.**  Where it succeeds, the object of each edit was
there before, with the value before, unless it is one of the additions.  So where one of these objects
is missing or has another value, the replay fails and changes nothing. -/
theorem conditional_replay_insists (h : c.Derived old new) (base : State) :
    (∀ tally w, c.replay .conditional Workspace.sink ⟨base, none⟩ = (.ok tally, w) →
      ∀ e ∈ c.delta.edits, c.delta.adds e.owner = false →
        e.owner ∈ base.nodes ∧ (base.value e.key == e.before) = true) ∧
    ((∃ e ∈ c.delta.edits, c.delta.adds e.owner = false ∧
        ¬ (e.owner ∈ base.nodes ∧ (base.value e.key == e.before) = true)) →
      ∃ f, c.replay .conditional Workspace.sink ⟨base, none⟩ = (.error f, ⟨base, none⟩)) := by
  constructor
  · intro tally w hreplay e he hadds
    exact current_of_conditional_replay h hreplay he hadds
  · rintro ⟨e, he, hadds, hdrift⟩
    rcases c.replay_cases .conditional ⟨base, none⟩ with hfails | ⟨-, s, hreplay⟩
    · exact hfails
    · exact absurd (current_of_conditional_replay h hreplay he hadds) hdrift

/-- The replay of an edit of one value goes through where the value is current; it fails where the value
has become another one, or its object has gone. -/
theorem conditional_replay_insists_on_one_value :
    let old : Snapshot := ⟨[⟨none, "T", ⟨"a"⟩, 0⟩], [.point ⟨"a"⟩ "x" .string (.ofText "1")]⟩
    let new : Snapshot := ⟨[⟨none, "T", ⟨"a"⟩, 0⟩], [.point ⟨"a"⟩ "x" .string (.ofText "2")]⟩
    let kept : State := .ofSnapshot ⟨[⟨some ⟨"b"⟩, "T", ⟨"a"⟩, 7⟩],
      [.point ⟨"a"⟩ "x" .string (.ofText "1")]⟩
    let drifted : State := .ofSnapshot ⟨[⟨some ⟨"b"⟩, "T", ⟨"a"⟩, 7⟩],
      [.point ⟨"a"⟩ "x" .string (.ofText "9")]⟩
    ∃ c : Comparison, c.Derived old new ∧
      (∃ w, c.replay .conditional Workspace.sink ⟨kept, none⟩ = (.ok ⟨0, 0, 1⟩, w)) ∧
      (kept.value ⟨⟨"a"⟩, "x"⟩ == .ofText "1") = true ∧
      (∃ f, c.replay .conditional Workspace.sink ⟨drifted, none⟩ = (.error f, ⟨drifted, none⟩)) ∧
      ∃ f, c.replay .conditional Workspace.sink .empty = (.error f, .empty) := by
  intro old new kept drifted
  let e : Property := .edit ⟨"a"⟩ "x" .string (.ofText "1") (.ofText "2")
  obtain ⟨c, hderived, hedits, hadds, w, hreplay⟩ : ∃ c : Comparison, c.Derived old new ∧
      c.delta.edits = [e] ∧ c.delta.adds e.owner = false ∧
      ∃ w, c.replay .conditional Workspace.sink ⟨kept, none⟩ = (.ok ⟨0, 0, 1⟩, w) :=
    ⟨(fresh.compare old new).2, .compared (Prod.ext (by rfl) rfl), by decide +kernel,
      by decide +kernel, _, Prod.ext (by decide +kernel) rfl⟩
  have hedit : e ∈ c.delta.edits := hedits ▸ List.mem_cons_self
  refine ⟨c, hderived, ⟨w, hreplay⟩, ?_, ?_, ?_⟩
  · exact ((conditional_replay_insists hderived kept).1 _ w hreplay e hedit hadds).2
  · refine (conditional_replay_insists hderived drifted).2 ⟨e, hedit, hadds, ?_⟩
    exact fun h => absurd h.2 (by decide +kernel)
  · refine (conditional_replay_insists hderived .empty).2 ⟨e, hedit, hadds, ?_⟩
    exact fun h => absurd h.1 (by decide +kernel)

end Comparison

end GraphDelta
