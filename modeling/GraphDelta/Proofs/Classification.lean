/-
**Which changes are found.**

A pass over two snapshots comes by one object after the other.  It queues a fresh one alone and a moved
one with everything that is below it, so one object may be due several times: a moved object can be below
another one, and so can a fresh one.  It is queued when it is due first, and that depends on the order in
which the objects come by.

Which objects are queued in the end does not.  Those are the fresh ones and the rebuilt ones, each with its
new record, and the properties that are edited have one of four reasons each.  An object is looked up below
a moved one only where it is known, so no pass ends because an object is missing.

Main results:

* `Survey.Seen.mem_rebuilt_iff`, `Survey.Seen.perm_additions` — what a pass has found, whatever its order;
* `Survey.fst_enter` — a pass and a comparison end in the same way;
* `Comparison.compare_ne_unresolved` — no object is missing;
* `Comparison.classification` — **which changes are found**.
-/
import GraphDelta.Proofs.Requests
import GraphDelta.Proofs.Survey

set_option autoImplicit false

namespace GraphDelta

namespace Survey

variable {old new : NodeMap} {o c : Catalog} {f : Forest} {d : Delta} {ids : List Ident} {s : Survey}

/-! ### Passes in any order -/

theorem Seen.mem_rebuilt_iff {l : Ledger} (h : Seen f old new l ids s)
    (hf : Delta.newForest old new = .ok f) (hids : ids.Perm (old.allIds new)) (id : Ident) :
    id ∈ s.rebuilt ↔ Delta.IsRebuilt old new id := by
  have hperm : ((ids.filter (old.isMoved new)).flatMap f.below).Perm
      ((Delta.movedIds old new).flatMap f.below) := (hids.filter _).flatMap_right _
  rw [h.mem_rebuilt, hperm.mem_iff, ← Delta.mem_rebuiltIds hf, Delta.rebuiltIds,
    Std.ExtTreeSet.mem_ofList, List.contains_iff_mem]

theorem Seen.perm_additions (h : Seen f o.nodes c.nodes .empty ids s) (hc : c.nodes.Filed)
    (hf : Delta.newForest o.nodes c.nodes = .ok f) (hd : Delta.between o c = .ok d)
    (hids : ids.Perm (o.nodes.allIds c.nodes)) : s.ledger.additions.Perm d.additions := by
  obtain ⟨g, lists, hg, -, rfl⟩ := Delta.between_eq_ok_iff.1 hd
  cases hf.symm.trans hg
  have hqueued : (ids.flatMap (queuedFor f o.nodes c.nodes)).Perm
      ((o.nodes.allIds c.nodes).flatMap (queuedFor f o.nodes c.nodes)) := hids.flatMap_right _
  -- an object that is due several times is queued when it is due first, so only members can be compared
  have hdistinct : (distinct (ids.flatMap (queuedFor f o.nodes c.nodes))).Perm
      (Delta.additionIds f o.nodes c.nodes) := by
    refine (List.perm_ext_iff_of_nodup (nodup_distinct _) (nodup_distinct _)).2 fun id => ?_
    rw [mem_distinct, mem_distinct]
    exact hqueued.mem_iff
  rw [h.ledger_eq, Ledger.additions_enqueueAll hc fun _ hid => mem_of_mem_flatMap_queuedFor hf hid]
  exact hdistinct.filterMap _

/-- A pass ends in the same way as a comparison does. -/
theorem fst_enter (old new : Snapshot) : (enter (.ofSnapshot old) (.ofSnapshot new) .empty).1 =
    (Comparison.fresh.compare old new).1 := by
  have ho := Catalog.filed_ofSnapshot old
  have hc := Catalog.filed_ofSnapshot new
  rw [Comparison.compare]
  cases h : Delta.between (.ofSnapshot old) (.ofSnapshot new) with
  | ok d =>
      obtain ⟨l, hl, -, -⟩ := exists_enter_eq_ok ho hc h
      rw [hl]
  | error e =>
      obtain ⟨l, hl⟩ := exists_enter_eq_error hc h .empty
      rw [hl]

end Survey

namespace Comparison

/-! ### What is found -/

theorem compare_ne_unresolved (old new : Snapshot) (id : Ident) :
    (fresh.compare old new).1 ≠ .error (.unresolved id) := by
  rw [compare]
  cases h : Delta.between (.ofSnapshot old) (.ofSnapshot new) with
  | ok d => exact fun h => by cases h
  | error e =>
      obtain ⟨z, rfl⟩ := Delta.exists_cycle_of_between h
      exact fun h => by cases h

/-- **Which changes are found.**  If a comparison goes through, then it adds the fresh and the rebuilt
objects, each once and with its new record.  Its edits are in strictly ascending order of their keys, and
they are those for which there is a reason.  A pass in which the objects come by in any other order finds
the same objects to add and to rebuild.  The pass over the objects ends as the comparison does, and no
object is missing in it. -/
theorem classification (old new : Snapshot) :
    (∀ c, fresh.compare old new = (.ok (), c) →
      (∀ n, n ∈ c.delta.additions ↔ new.objects[n.id]? = some n ∧
        (n.id ∉ old.objects ∨ Delta.IsRebuilt old.objects new.objects n.id)) ∧
      (c.delta.additions.map Node.id).Nodup ∧
      (c.delta.edits.Pairwise fun e e' => Ord.compare e.key e'.key = .lt) ∧
      (∀ e, e ∈ c.delta.edits ↔ Delta.Edited (.ofSnapshot old) (.ofSnapshot new) e.key e) ∧
      (∃ l, Survey.enter (.ofSnapshot old) (.ofSnapshot new) .empty = (.ok (), l) ∧
        l.delta = c.delta) ∧
      ∀ ids, ids.Perm (old.objects.allIds new.objects) → ∃ s,
        sweep (Survey.visit old.objects new.objects) ids (.start .empty) = (.ok (), s) ∧
        s.ledger.additions.Perm c.delta.additions ∧
        ∀ id, id ∈ s.rebuilt ↔ Delta.IsRebuilt old.objects new.objects id) ∧
    (Survey.enter (.ofSnapshot old) (.ofSnapshot new) .empty).1 = (fresh.compare old new).1 ∧
    ∀ id, (fresh.compare old new).1 ≠ .error (.unresolved id) := by
  have ho := Catalog.filed_ofSnapshot old
  have hn := Catalog.filed_ofSnapshot new
  refine ⟨fun c h => ?_, Survey.fst_enter old new, compare_ne_unresolved old new⟩
  obtain ⟨d, hd, rfl⟩ := compare_eq_ok_iff.1 h
  refine ⟨fun n => ?_, Delta.nodup_additions hn.nodes hd,
    Delta.pairwise_edits ho.properties hn.properties hd,
    fun e => Delta.mem_edits ho.properties hn.properties hd, ?_, fun ids hids => ?_⟩
  · -- a record of the new map whose object is not in the old one is fresh
    refine (Delta.mem_additions hn.nodes hd).trans (and_congr_right fun hmem => ?_)
    refine or_congr_left (NodeMap.isFresh_iff.trans (and_iff_left ?_))
    exact NodeMap.mem_of_getElem?_eq_some hmem
  · obtain ⟨l, hl, hdelta, -⟩ := Survey.exists_enter_eq_ok ho hn hd
    exact ⟨l, hl, hdelta⟩
  · obtain ⟨f, -, hf, -, -⟩ := Delta.between_eq_ok_iff.1 hd
    obtain ⟨s, hs, hseen⟩ := Survey.exists_sweep_visit_eq_ok hn.nodes hf ids .empty
    exact ⟨s, hs, hseen.perm_additions hn.nodes hf hd hids, hseen.mem_rebuilt_iff hf hids⟩

/-- One object moves below another one that moves, and a third is fresh below them.  Two more move, as
one gets another place, and the other another type.  Properties come, go and change, one of them only its
type, and two stay as their objects are rebuilt.  Backwards, the outer move comes by first. -/
theorem classification_nested_moves :
    let old : Snapshot := ⟨
      [⟨none, "T", ⟨"w"⟩, 0⟩, ⟨some ⟨"w"⟩, "T", ⟨"f"⟩, 0⟩, ⟨some ⟨"f"⟩, "T", ⟨"t"⟩, 0⟩,
        ⟨some ⟨"t"⟩, "T", ⟨"b"⟩, 0⟩, ⟨some ⟨"t"⟩, "T", ⟨"c"⟩, 1⟩, ⟨some ⟨"w"⟩, "T", ⟨"x"⟩, 2⟩,
        ⟨some ⟨"w"⟩, "T", ⟨"i"⟩, 3⟩, ⟨some ⟨"w"⟩, "T", ⟨"u"⟩, 4⟩],
      [.point ⟨"b"⟩ "p" .string (.ofText "1"), .point ⟨"f"⟩ "p" .string (.ofText "1"),
        .point ⟨"f"⟩ "q" .string (.ofText "1"), .point ⟨"f"⟩ "r" .string (.ofText "1"),
        .point ⟨"i"⟩ "p" .string (.ofText "1"), .point ⟨"w"⟩ "p" .string (.ofText "1"),
        .point ⟨"x"⟩ "p" .string (.ofText "1")]⟩
    let new : Snapshot := ⟨
      [⟨none, "T", ⟨"w"⟩, 0⟩, ⟨some ⟨"w"⟩, "T", ⟨"f"⟩, 0⟩, ⟨some ⟨"w"⟩, "T", ⟨"t"⟩, 0⟩,
        ⟨some ⟨"t"⟩, "T", ⟨"b"⟩, 0⟩, ⟨some ⟨"b"⟩, "T", ⟨"c"⟩, 1⟩, ⟨some ⟨"b"⟩, "T", ⟨"n"⟩, 0⟩,
        ⟨some ⟨"w"⟩, "T", ⟨"i"⟩, 5⟩, ⟨some ⟨"w"⟩, "U", ⟨"u"⟩, 4⟩],
      [.point ⟨"b"⟩ "p" .string (.ofText "1"), .point ⟨"f"⟩ "p" .string (.ofText "2"),
        .point ⟨"f"⟩ "r" .reference (.ofText "1"), .point ⟨"i"⟩ "p" .string (.ofText "1"),
        .point ⟨"n"⟩ "p" .string (.ofText "1"), .point ⟨"w"⟩ "p" .string (.ofText "1")]⟩
    ∃ c, fresh.compare old new = (.ok (), c) ∧
      c.delta.additions.map Node.id = [⟨"c"⟩, ⟨"i"⟩, ⟨"n"⟩, ⟨"t"⟩, ⟨"b"⟩, ⟨"u"⟩] ∧
      c.delta.edits = [⟨⟨"b"⟩, "p", .string, .ofText "1", .ofText "1", true⟩,
        ⟨⟨"f"⟩, "p", .string, .ofText "1", .ofText "2", true⟩,
        ⟨⟨"f"⟩, "q", .string, .ofText "1", .null, true⟩,
        ⟨⟨"f"⟩, "r", .reference, .ofText "1", .ofText "1", true⟩,
        ⟨⟨"i"⟩, "p", .string, .ofText "1", .ofText "1", true⟩,
        ⟨⟨"n"⟩, "p", .string, .null, .ofText "1", true⟩] ∧
      Delta.IsRebuilt old.objects new.objects ⟨"b"⟩ ∧
      ∃ s, sweep (Survey.visit old.objects new.objects) (old.objects.allIds new.objects).reverse
          (.start .empty) = (.ok (), s) ∧
        s.ledger.additions.map Node.id = [⟨"u"⟩, ⟨"t"⟩, ⟨"b"⟩, ⟨"n"⟩, ⟨"c"⟩, ⟨"i"⟩] ∧
        s.ledger.additions.Perm c.delta.additions := by
  intro old new
  let visited := sweep (Survey.visit old.objects new.objects) (old.objects.allIds new.objects).reverse
    (.start .empty)
  have hc : fresh.compare old new = (.ok (), (fresh.compare old new).2) := Prod.ext (by rfl) rfl
  obtain ⟨⟨hadditions, -, -, -, -, horder⟩, -⟩ := (classification old new).imp_left fun h => h _ hc
  obtain ⟨s, hs, hperm, -⟩ := horder _ (List.reverse_perm _)
  have hb : (⟨some ⟨"t"⟩, "T", ⟨"b"⟩, 0⟩ : Node) ∈ (fresh.compare old new).2.delta.additions := by
    decide +kernel
  have hrebuilt : Delta.IsRebuilt old.objects new.objects ⟨"b"⟩ :=
    ((hadditions _).1 hb).2.resolve_left (by decide +kernel)
  have hids : visited.2.ledger.additions.map Node.id =
      [⟨"u"⟩, ⟨"t"⟩, ⟨"b"⟩, ⟨"n"⟩, ⟨"c"⟩, ⟨"i"⟩] := by decide +kernel
  refine ⟨_, hc, by decide +kernel, by decide +kernel, hrebuilt, s, hs, ?_, hperm⟩
  rw [← hids]
  exact congrArg (fun v : Except Fault Unit × Survey => v.2.ledger.additions.map Node.id) hs.symm

end Comparison

end GraphDelta
