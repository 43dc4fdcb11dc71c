/-
**What an outline shows.**

If two snapshots fit together, then the outline of their comparison lists, below any root, the changed
objects from which pointers lead to the root and the unchanged ones on their ways, each once, as deep as
it takes pointers to get to the root and within the part of what it is shown under.

It would be as well to say it with the parents of each changed object in its own snapshot.  This comes
to the same as long as every changed object that the pointers connect with the root is connected with it
by its parents too, as is the case where no parent is missing.  But where the parents of an added object
end at an object of the old snapshot only, the outline goes on from there, and shows objects that are
gone as unchanged.

An outline shows as removed what is listed for removal and not added again.  A gone object has one
object listed for removal among itself and its old ancestors.  If that one is gone and stands below the
root, it is shown, and the other one with it; but if it has moved, then nothing of the gone object is
shown.

Main definitions:

* `Outline.Listed` — what an outline should list, given the pointers;
* `Outline.Depicts` — a list of entries shows that, in its order and depth;
* `Comparison.Unchanged` — an object has one record in both snapshots, and no edits.

Main results:

* `Outline.depicts_rows` — the rows of a sketch show what the pointers lead to;
* `Comparison.outline_depicts` — **what an outline shows**, and when that is what the parents say;
* `Comparison.deletion_shown_iff` — **when the deletion of an object is shown**.
-/
import GraphDelta.Proofs.Strict
import GraphDelta.Proofs.Tracing

set_option autoImplicit false

namespace GraphDelta

variable {old new : Snapshot} {c : Comparison} {root x y : Ident} {k : Nat}

namespace Outline

variable {s : Sketch} {st : Status} {way way' : Status → Ident → Option Ident} {entries : List Entry}

/-! ### What an outline should list -/

/-- What an outline should list below the root, given the pointers to follow from each change: the
changed objects from which they lead to the root, as what they are, and what does not change on the way,
as unchanged. -/
def Listed (c : Comparison) (way : Status → Ident → Option Ident) (root y : Ident) (st : Status) :
    Prop :=
  (Changes c.delta y st ∧ LeadsOn (upTo root (way st)) y root) ∨
  st = .same ∧ (∀ st', ¬ Changes c.delta y st') ∧
    ∃ x st' k, Changes c.delta x st' ∧ Passes (way st') root x y k

/-- The entries are what an outline should list, in its order. -/
structure Depicts (c : Comparison) (way : Status → Ident → Option Ident) (root : Ident)
    (entries : List Entry) : Prop where
  nodup : (entries.map Entry.id).Nodup
  /-- What should be listed is, and nothing else. -/
  listed : ∀ y st, (∃ e ∈ entries, e.id = y ∧ e.status = st) ↔ Listed c way root y st
  depth : ∀ e ∈ entries, ∀ x st k, Changes c.delta x st → Passes (way st) root x e.id k → e.depth = k
  /-- Each entry stands in the part of the object that comes next on the way to the root. -/
  exists_grove : ∃ g : Grove, entries.map (fun e => (e.id, e.depth)) = g.lines 0 ∧
    g.HangsUnder (fun a b => ∃ x st k, Changes c.delta x st ∧ Passes (way st) root x a k ∧
      upTo root (way st) a = some b) root

theorem Depicts.congr (h : Depicts c way root entries)
    (hway : ∀ x st, Changes c.delta x st →
      LeadsOn (upTo root (way st)) x root ∨ LeadsOn (upTo root (way' st)) x root →
      ∀ k, follow (upTo root (way st)) k x = follow (upTo root (way' st)) k x) :
    Depicts c way' root entries := by
  have hleads {x : Ident} {st : Status} (hx : Changes c.delta x st) :
      LeadsOn (upTo root (way st)) x root ↔ LeadsOn (upTo root (way' st)) x root := by
    constructor
    · intro hon
      obtain ⟨k, hk⟩ := hon
      exact ⟨k, hway x st hx (.inl ⟨k, hk⟩) (k + 1) ▸ hk⟩
    · intro hon
      obtain ⟨k, hk⟩ := hon
      exact ⟨k, (hway x st hx (.inr ⟨k, hk⟩) (k + 1)).symm ▸ hk⟩
  have hpasses {x y : Ident} {st : Status} {k : Nat} (hx : Changes c.delta x st) :
      Passes (way st) root x y k ↔ Passes (way' st) root x y k := by
    by_cases hon : LeadsOn (upTo root (way st)) x root
    · rw [passes_iff_follow, passes_iff_follow]
      simp only [hway x st hx (.inl hon)]
    · exact iff_of_false (fun hp => hon hp.leadsOn) fun hp => hon ((hleads hx).2 hp.leadsOn)
  refine ⟨h.nodup, fun y st => (h.listed y st).trans ?_, ?_, ?_⟩
  · refine or_congr (and_congr_right hleads) (and_congr_right fun _ => and_congr_right fun _ => ?_)
    exact exists_congr fun x => exists_congr fun st' => exists_congr fun k =>
      and_congr_right fun hx => hpasses hx
  · intro e he x st k hx hp
    exact h.depth e he x st k hx ((hpasses hx).2 hp)
  · obtain ⟨g, hg, hangs⟩ := h.exists_grove
    refine ⟨g, hg, hangs.imp (d := 0) fun r _ q => ?_⟩
    rintro ⟨x, st, k, hx, hp, hq⟩
    refine ⟨x, st, k, hx, (hpasses hx).1 hp, ?_⟩
    obtain ⟨i, hi, -⟩ := passes_iff_follow.1 hp
    have hnext : follow (upTo root (way st)) (i + 1) x = some q := by
      rw [follow_succ_right, hi]
      exact hq
    rw [hway x st hx (.inl hp.leadsOn)] at hi hnext
    rwa [follow_succ_right, hi] at hnext

/-! ### What an outline lists -/

section

variable (hs : Sketch.Filling c root (fun _ => False) s) (hroot : root ∉ s.links)

include hs hroot

theorem mem_rows_iff :
    (y, k) ∈ s.rows c root ↔ ∃ x st, Changes c.delta x st ∧ Passes c.shownUnder? root x y k := by
  rw [Sketch.mem_rows hroot, hs.follow_above_iff]
  constructor
  · rintro ⟨⟨x, st, hx, hxy⟩, hk⟩
    exact ⟨x, st, hx, hxy, hk⟩
  · rintro ⟨x, st, hx, hxy, hk⟩
    exact ⟨⟨x, st, hx, hxy⟩, hk⟩

/-- **The rows of a sketch show what the pointers lead to.** -/
theorem depicts_rows (shows : String → String → Bool) :
    Depicts c (fun _ => c.shownUnder?) root ((s.rows c root).map (entry c shows s)) := by
  refine ⟨?_, ?_, ?_, ?_⟩
  · rw [map_entry_id]
    exact Sketch.nodup_rows hroot c
  · intro y st
    have hentry : (∃ e ∈ (s.rows c root).map (entry c shows s), e.id = y ∧ e.status = st) ↔
        ∃ k, (y, k) ∈ s.rows c root ∧ s.marks[y]?.getD .same = st := by
      constructor
      · rintro ⟨e, he, rfl, rfl⟩
        obtain ⟨⟨z, k⟩, hrow, rfl⟩ := List.mem_map.1 he
        exact ⟨k, hrow, rfl⟩
      · rintro ⟨k, hrow, rfl⟩
        exact ⟨_, List.mem_map.2 ⟨(y, k), hrow, rfl⟩, rfl, rfl⟩
    rw [hentry]
    have hmark {x : Ident} {st' : Status} {k : Nat} (hx : Changes c.delta x st')
        (hp : Passes c.shownUnder? root x y k) : y ∈ s.marks :=
      hs.mem_marks ⟨x, st', hx, hp.1⟩ ⟨k, hp.2⟩
    constructor
    · rintro ⟨k, hrow, hst⟩
      obtain ⟨x, st', hx, hp⟩ := (mem_rows_iff hs hroot).1 hrow
      rcases (hs.status_eq_iff (hmark hx hp)).1 hst with hy | ⟨rfl, hno⟩
      · exact .inl ⟨hy, k, hp.2⟩
      · exact .inr ⟨rfl, hno, x, st', k, hx, hp⟩
    · rintro (⟨hy, hon⟩ | ⟨rfl, hno, x, st', k, hx, hp⟩)
      · obtain ⟨k, hp⟩ := exists_passes_self hon
        exact ⟨k, (mem_rows_iff hs hroot).2 ⟨y, st, hy, hp⟩,
          (hs.status_eq_iff (hmark hy hp)).2 (.inl hy)⟩
      · exact ⟨k, (mem_rows_iff hs hroot).2 ⟨x, st', hx, hp⟩,
          (hs.status_eq_iff (hmark hx hp)).2 (.inr ⟨rfl, hno⟩)⟩
  · intro e he x st k _ hp
    obtain ⟨⟨z, j⟩, hrow, rfl⟩ := List.mem_map.1 he
    obtain ⟨_, _, _, hj⟩ := (mem_rows_iff hs hroot).1 hrow
    exact Nat.succ_injective (eq_of_follow_last upTo_root hj.2 hp.2)
  · obtain ⟨g, hg, -, hangs⟩ := Sketch.exists_grove c s root
    refine ⟨g, (map_entry_line c shows s _).trans hg, hangs.imp (d := 0) fun r hr q hq => ?_⟩
    rw [← hg] at hr
    obtain ⟨x, st, hx, hp⟩ := (mem_rows_iff hs hroot).1 (show (r.1, r.2) ∈ s.rows c root from hr)
    exact ⟨x, st, r.2, hx, hp, (hs.traced r.1 q (Sketch.above_eq_some_iff.1 hq).2).1⟩

end

end Outline

namespace Comparison

open Outline (Status Changes Listed Depicts Entry)

variable {st : Status}

/-! ### Outlines of snapshots that fit together -/

def Unchanged (c : Comparison) (x : Ident) : Prop :=
  (∃ n, c.old.nodes[x]? = some n ∧ c.new.nodes[x]? = some n) ∧ ∀ p ∈ c.delta.edits, p.owner ≠ x

theorem exists_compare (h : old.Compatible new) : ∃ c, fresh.compare old new = (.ok (), c) := by
  obtain ⟨d, hd⟩ := h.exists_between_eq_ok
  exact ⟨_, compare_eq_ok_iff.2 ⟨d, hd, rfl⟩⟩

section

variable (hc : fresh.compare old new = (.ok (), c)) (h : old.Compatible new)

include hc h

theorem exists_outline (root : Ident) (shows : String → String → Bool) :
    ∃ entries, c.outline root shows = .ok entries ∧
      Depicts c (fun _ => c.shownUnder?) root entries := by
  have hfilling := Outline.Sketch.filling_ofMarks hc h root
  have hlinks := Outline.Sketch.root_notMem_links c root (Outline.marks c.delta)
  have hknown : ∀ x st, Changes c.delta x st → c.IsKnown x := by
    intro x st hx
    by_contra hno
    obtain ⟨p, hp, rfl⟩ := (Derived.compared hc).exists_edit_of_changes hx hno
    exact hno (.inr (owner_mem_new hc h hp))
  refine ⟨_, outline_eq_ok ?_ hknown, Outline.depicts_rows hfilling hlinks shows⟩
  obtain ⟨d, -, rfl⟩ := compare_eq_ok_iff.1 hc
  rfl

theorem unchanged_of_passes (hx : Changes c.delta x st) (hp : Passes (c.parentFor? st) root x y k)
    (hno : ∀ st', ¬ Changes c.delta y st') : c.Unchanged y := by
  have hadds : c.delta.adds y = false := Bool.eq_false_iff.2 (hno .added)
  constructor
  · have hxy : Leads (c.parentFor? st) x y := hp.1.mono eq_some_of_upTo
    obtain ⟨a, ha, -⟩ := leadsOn_iff.1 ⟨k, hp.2⟩
    have hparent := eq_some_of_upTo y a ha
    by_cases hst : st = .added
    · subst hst
      obtain ⟨n, hn, -⟩ := NodeMap.parent?_eq_some_iff.1 hparent
      exact ⟨n, getElem?_old_of_new hc hadds hn, hn⟩
    · rw [parentFor?_of_ne c hst] at hxy hparent
      have hon : LeadsOn c.old.nodes.parent? x y :=
        (leads_iff.1 hxy).resolve_left fun heq => hno st (heq ▸ hx)
      exact (exists_of_above hc h hx hst hon (NodeMap.mem_of_parent? hparent)).2
  · rintro p hmem rfl
    obtain ⟨st', hst'⟩ := Derived.exists_changes_of_edit hmem
    exact hno st' hst'

/-- Where the parents of changed objects connect them with the root whenever the pointers do, the entries
are what the parents say, and what is shown as unchanged is. -/
theorem depicts_parents {entries : List Entry} (hd : Depicts c (fun _ => c.shownUnder?) root entries)
    (hall : ∀ x st, Changes c.delta x st → LeadsOn (upTo root c.shownUnder?) x root →
      LeadsOn (upTo root (c.parentFor? st)) x root) :
    Depicts c c.parentFor? root entries ∧
      ∀ e ∈ entries, e.status = .same → c.Unchanged e.id := by
  have hparents : Depicts c c.parentFor? root entries := by
    refine hd.congr fun x st hx hon k => ?_
    exact (follow_parentFor? hc h hx (hon.elim (hall x st hx) id) k).symm
  refine ⟨hparents, fun e he hsame => ?_⟩
  rcases (hparents.listed e.id e.status).1 ⟨e, he, rfl, rfl⟩ with ⟨hx, -⟩ | ⟨-, hno, x, st, k, hx, hp⟩
  · rw [hsame] at hx
    exact hx.elim
  · exact unchanged_of_passes hc h hx hp hno

end

/-- **What an outline shows.**  Where two snapshots fit together, their comparison has an outline below
every root.  It shows what the pointers lead to.  It shows what the parents of the changed objects lead
to, and as unchanged only what is, exactly if every changed object that the pointers connect with the
root is connected with it by its parents in its own snapshot. -/
theorem outline_depicts (h : old.Compatible new) : ∃ c, fresh.compare old new = (.ok (), c) ∧
    ∀ (root : Ident) (shows : String → String → Bool), ∃ entries,
      c.outline root shows = .ok entries ∧ Depicts c (fun _ => c.shownUnder?) root entries ∧
      ((Depicts c c.parentFor? root entries ∧
          ∀ e ∈ entries, e.status = .same → c.Unchanged e.id) ↔
        ∀ x st, Changes c.delta x st → LeadsOn (upTo root c.shownUnder?) x root →
          LeadsOn (upTo root (c.parentFor? st)) x root) := by
  obtain ⟨c, hc⟩ := exists_compare h
  refine ⟨c, hc, fun root shows => ?_⟩
  obtain ⟨entries, hentries, hdepicts⟩ := exists_outline hc h root shows
  refine ⟨entries, hentries, hdepicts, ?_, ?_⟩
  · rintro ⟨hparents, -⟩ x st hx hon
    obtain ⟨e, he, rfl, rfl⟩ := (hdepicts.listed x st).2 (.inl ⟨hx, hon⟩)
    rcases (hparents.listed e.id e.status).1 ⟨e, he, rfl, rfl⟩ with ⟨-, hon'⟩ | ⟨-, hno, -⟩
    · exact hon'
    · exact absurd hx (hno e.status)
  · exact depicts_parents hc h hdepicts

/-- One object moves from one branch to another, one is removed and one edited. -/
theorem outline_depicts_moved_object :
    let old : Snapshot := ⟨
      [⟨none, "T", ⟨"w"⟩, 0⟩, ⟨some ⟨"w"⟩, "T", ⟨"f"⟩, 0⟩, ⟨some ⟨"w"⟩, "T", ⟨"g"⟩, 1⟩,
        ⟨some ⟨"f"⟩, "T", ⟨"t"⟩, 0⟩, ⟨some ⟨"f"⟩, "T", ⟨"u"⟩, 1⟩],
      [.point ⟨"f"⟩ "x" .string (.ofText "1")]⟩
    let new : Snapshot := ⟨
      [⟨none, "T", ⟨"w"⟩, 0⟩, ⟨some ⟨"w"⟩, "T", ⟨"f"⟩, 0⟩, ⟨some ⟨"w"⟩, "T", ⟨"g"⟩, 1⟩,
        ⟨some ⟨"g"⟩, "T", ⟨"t"⟩, 0⟩],
      [.point ⟨"f"⟩ "x" .string (.ofText "2")]⟩
    old.Compatible new ∧ ∃ (c : Comparison) (entries : List Entry),
      fresh.compare old new = (.ok (), c) ∧ c.outline ⟨"w"⟩ (fun _ _ => true) = .ok entries ∧
      Depicts c c.parentFor? ⟨"w"⟩ entries ∧
      entries.map (fun e => (e.id, e.status, e.depth)) = [(⟨"f"⟩, .edited, 0), (⟨"u"⟩, .removed, 1),
        (⟨"g"⟩, .same, 0), (⟨"t"⟩, .added, 1)] := by
  intro old new
  have hcompatible : old.Compatible new := Snapshot.compatible_of_nodes (by decide +kernel)
    (by decide +kernel) (by decide +kernel) rfl rfl
  obtain ⟨c, hc, houtline⟩ := outline_depicts hcompatible
  obtain ⟨entries, hentries, -, hiff⟩ := houtline ⟨"w"⟩ fun _ _ => true
  obtain rfl : (fresh.compare old new).2 = c := congrArg Prod.snd hc
  refine ⟨hcompatible, _, entries, hc, hentries, (hiff.2 ?_).1, ?_⟩
  · have hway : ∀ mark ∈ Outline.marks (fresh.compare old new).2.delta, ∃ k < 2,
        follow (upTo ⟨"w"⟩ ((fresh.compare old new).2.parentFor? mark.2)) (k + 1) mark.1 =
          some ⟨"w"⟩ := by decide +kernel
    intro x st hx _
    obtain ⟨k, -, hk⟩ := hway (x, st) (Outline.mem_marks.2 hx)
    exact ⟨k, hk⟩
  · have hlines : ((fresh.compare old new).2.outline ⟨"w"⟩ fun _ _ => true).map
        (List.map fun e => (e.id, e.status, e.depth)) = .ok [(⟨"f"⟩, .edited, 0), (⟨"u"⟩, .removed, 1),
          (⟨"g"⟩, .same, 0), (⟨"t"⟩, .added, 1)] := by decide +kernel
    rw [hentries] at hlines
    exact Except.ok.inj hlines

/-- The new parent of an added object is gone, together with what was above it.  The addition is shown
below the removed object, and its gone parent as unchanged. -/
theorem outline_shows_gone_parent_as_same : ¬ ∀ old new : Snapshot, old.Compatible new →
    ∃ c, fresh.compare old new = (.ok (), c) ∧
      ∀ (root : Ident) (shows : String → String → Bool), ∃ entries,
        c.outline root shows = .ok entries ∧ Depicts c c.parentFor? root entries ∧
        ∀ e ∈ entries, e.status = .same → c.Unchanged e.id := by
  intro h
  let old : Snapshot := ⟨[⟨none, "T", ⟨"w"⟩, 0⟩, ⟨some ⟨"w"⟩, "T", ⟨"r"⟩, 0⟩,
    ⟨some ⟨"r"⟩, "T", ⟨"q"⟩, 0⟩], []⟩
  let new : Snapshot := ⟨[⟨none, "T", ⟨"w"⟩, 0⟩, ⟨some ⟨"q"⟩, "T", ⟨"x"⟩, 0⟩], []⟩
  obtain ⟨c, hc, houtline⟩ := h old new (Snapshot.compatible_of_nodes (by decide +kernel)
    (by decide +kernel) (by decide +kernel) rfl rfl)
  obtain ⟨entries, hentries, -, hsame⟩ := houtline ⟨"w"⟩ fun _ _ => true
  obtain rfl : (fresh.compare old new).2 = c := congrArg Prod.snd hc
  have hlines : ((fresh.compare old new).2.outline ⟨"w"⟩ fun _ _ => true).map
      (List.map fun e => (e.id, e.status)) =
        .ok [(⟨"r"⟩, .removed), (⟨"q"⟩, .same), (⟨"x"⟩, .added)] := by decide +kernel
  rw [hentries] at hlines
  have hmem : ((⟨"q"⟩, .same) : Ident × Status) ∈ entries.map fun e => (e.id, e.status) := by
    rw [Except.ok.inj hlines]
    decide
  obtain ⟨e, he, heq⟩ := List.mem_map.1 hmem
  obtain ⟨hid, hst⟩ := Prod.mk.inj heq
  obtain ⟨⟨n, -, hn⟩, -⟩ := hsame e he hst
  rw [hid] at hn
  have hgone : (⟨"q"⟩ : Ident) ∉ (fresh.compare old new).2.new.nodes := by decide +kernel
  exact hgone (NodeMap.mem_of_getElem?_eq_some hn)

/-! ### Deletions -/

theorem adds_eq_false_iff_of_mem_removals (hc : fresh.compare old new = (.ok (), c)) {r : Node}
    (hr : r ∈ c.delta.removals) : c.delta.adds r.id = false ↔ r.id ∉ new.objects := by
  constructor
  · intro hno hnew
    obtain ⟨d, hd, rfl⟩ := compare_eq_ok_iff.1 hc
    have htop := ((Delta.mem_removals (NodeMap.filed_ofList old.nodes) hd).1 hr).2
    have hmoved : old.objects.Moved new.objects r.id :=
      (Delta.cascades_iff.1 htop.1).resolve_left fun hgone => (NodeMap.isGone_iff.1 hgone).2 hnew
    refine Bool.false_ne_true (hno.symm.trans ?_)
    exact (Delta.adds_iff (NodeMap.filed_ofList new.nodes) hd).2 (.inr ⟨r.id, hmoved, .refl r.id⟩)
  · intro hgone
    exact Bool.eq_false_iff.2 fun hadd => hgone ((Derived.compared hc).mem_objects.2 r.id hadd)

/-- **When the deletion of an object is shown.**  Where two snapshots fit together, an object that is
gone has one object listed for removal among itself and its old ancestors.  The deletion is shown — the
object or an old ancestor of it stands in the outline as removed — exactly if that one is gone too, and
pointers lead from it to the root; and they do if its old parents lead there. -/
theorem deletion_shown_iff (h : old.Compatible new) : ∃ c, fresh.compare old new = (.ok (), c) ∧
    ∀ (root : Ident) (shows : String → String → Bool), ∃ entries,
      c.outline root shows = .ok entries ∧ ∀ id, id ∈ old.objects → id ∉ new.objects →
        ∃ r ∈ c.delta.removals, Leads old.objects.parent? id r.id ∧
          (∀ r' ∈ c.delta.removals, Leads old.objects.parent? id r'.id → r' = r) ∧
          ((∃ e ∈ entries, e.status = .removed ∧ Leads old.objects.parent? id e.id) ↔
            r.id ∉ new.objects ∧ LeadsOn (upTo root c.shownUnder?) r.id root) ∧
          (r.id ∉ new.objects → LeadsOn old.objects.parent? r.id root →
            LeadsOn (upTo root c.shownUnder?) r.id root) := by
  obtain ⟨c, hc⟩ := exists_compare h
  refine ⟨c, hc, fun root shows => ?_⟩
  obtain ⟨entries, hentries, hdepicts⟩ := exists_outline hc h root shows
  refine ⟨entries, hentries, fun id hid hgone => ?_⟩
  obtain ⟨r, ⟨hr, hidr⟩, hone⟩ : ∃! r, r ∈ c.delta.removals ∧ Leads old.objects.parent? id r.id := by
    obtain ⟨d, hd, rfl⟩ := compare_eq_ok_iff.1 hc
    refine Delta.existsUnique_removal (NodeMap.filed_ofList old.nodes) hd ?_
      (h.old_treelike.acyclic.ends id)
    exact Delta.cascades_of_gone hid hgone
  have hremoved (hrgone : r.id ∉ new.objects) : Changes c.delta r.id .removed :=
    ⟨(adds_eq_false_iff_of_mem_removals hc hr).2 hrgone, r, hr, rfl⟩
  refine ⟨r, hr, hidr, fun r' hr' hidr' => hone r' ⟨hr', hidr'⟩, ⟨?_, ?_⟩, ?_⟩
  · rintro ⟨e, he, hst, hide⟩
    rcases (hdepicts.listed e.id e.status).1 ⟨e, he, rfl, rfl⟩ with ⟨hx, hon⟩ | ⟨hsame, -⟩
    · rw [hst] at hx
      obtain ⟨hno, r', hr', hid'⟩ := hx
      rw [← hid'] at hide hno hon
      cases hone r' ⟨hr', hide⟩
      exact ⟨(adds_eq_false_iff_of_mem_removals hc hr).1 hno, hon⟩
    · rw [hst] at hsame
      cases hsame
  · rintro ⟨hrgone, hon⟩
    obtain ⟨e, he, heq, hst⟩ := (hdepicts.listed r.id .removed).2 (.inl ⟨hremoved hrgone, hon⟩)
    exact ⟨e, he, hst, heq ▸ hidr⟩
  · intro hrgone hon
    have hne : r.id ≠ root := fun heq => h.old_treelike.acyclic r.id (by rwa [← heq] at hon)
    obtain ⟨k, hk⟩ : LeadsOn (upTo root (c.parentFor? .removed)) r.id root := by
      obtain ⟨d, -, rfl⟩ := compare_eq_ok_iff.1 hc
      exact leadsOn_upTo_iff.2 ⟨hne, hon.leads⟩
    exact ⟨k, follow_shownUnder? hc h (hremoved hrgone) hk⟩

/-- A branch of two objects is removed, and shown by its top. -/
theorem deletion_shown_by_top :
    let old : Snapshot := ⟨[⟨none, "T", ⟨"w"⟩, 0⟩, ⟨some ⟨"w"⟩, "T", ⟨"a"⟩, 0⟩,
      ⟨some ⟨"a"⟩, "T", ⟨"b"⟩, 0⟩], []⟩
    let new : Snapshot := ⟨[⟨none, "T", ⟨"w"⟩, 0⟩], []⟩
    old.Compatible new ∧ (⟨"b"⟩ : Ident) ∈ old.objects ∧ (⟨"b"⟩ : Ident) ∉ new.objects ∧
      ∃ (c : Comparison) (entries : List Entry), fresh.compare old new = (.ok (), c) ∧
        c.outline ⟨"w"⟩ (fun _ _ => true) = .ok entries ∧
        ∃ e ∈ entries, e.status = .removed ∧ Leads old.objects.parent? ⟨"b"⟩ e.id := by
  intro old new
  have hcompatible : old.Compatible new := Snapshot.compatible_of_nodes (by decide +kernel)
    (by decide +kernel) (by decide +kernel) rfl rfl
  have hold : (⟨"b"⟩ : Ident) ∈ old.objects := by decide +kernel
  have hnew : (⟨"b"⟩ : Ident) ∉ new.objects := by decide +kernel
  obtain ⟨c, hc, houtline⟩ := deletion_shown_iff hcompatible
  obtain ⟨entries, hentries, hshown⟩ := houtline ⟨"w"⟩ fun _ _ => true
  obtain ⟨r, hr, -, -, hiff, hleads⟩ := hshown ⟨"b"⟩ hold hnew
  obtain rfl : (fresh.compare old new).2 = c := congrArg Prod.snd hc
  have hremovals : (fresh.compare old new).2.delta.removals = [⟨some ⟨"w"⟩, "T", ⟨"a"⟩, 0⟩] := by
    decide +kernel
  rw [hremovals, List.mem_singleton] at hr
  subst hr
  have hgone : (⟨"a"⟩ : Ident) ∉ new.objects := by decide +kernel
  exact ⟨hcompatible, hold, hnew, _, entries, hc, hentries,
    hiff.2 ⟨hgone, hleads hgone ⟨0, by decide +kernel⟩⟩⟩

/-- An object moves and its child is gone.  The outline shows the move, and nothing of the child. -/
theorem outline_hides_gone_child : ¬ ∀ old new : Snapshot, old.Compatible new →
    ∃ c, fresh.compare old new = (.ok (), c) ∧
      ∀ (root : Ident) (shows : String → String → Bool), ∃ entries,
        c.outline root shows = .ok entries ∧ ∀ id, id ∈ old.objects → id ∉ new.objects →
          LeadsOn old.objects.parent? id root →
            ∃ e ∈ entries, e.status = .removed ∧ Leads old.objects.parent? id e.id := by
  intro h
  let old : Snapshot := ⟨[⟨none, "T", ⟨"w"⟩, 0⟩, ⟨some ⟨"w"⟩, "T", ⟨"m"⟩, 0⟩,
    ⟨some ⟨"m"⟩, "T", ⟨"q"⟩, 0⟩], []⟩
  let new : Snapshot := ⟨[⟨none, "T", ⟨"w"⟩, 0⟩, ⟨some ⟨"w"⟩, "T", ⟨"m"⟩, 1⟩], []⟩
  obtain ⟨c, hc, houtline⟩ := h old new (Snapshot.compatible_of_nodes (by decide +kernel)
    (by decide +kernel) (by decide +kernel) rfl rfl)
  obtain ⟨entries, hentries, hshown⟩ := houtline ⟨"w"⟩ fun _ _ => true
  obtain ⟨e, he, hst, -⟩ := hshown ⟨"q"⟩ (by decide +kernel) (by decide +kernel)
    ⟨1, by decide +kernel⟩
  obtain rfl : (fresh.compare old new).2 = c := congrArg Prod.snd hc
  have hlines : ((fresh.compare old new).2.outline ⟨"w"⟩ fun _ _ => true).map
      (List.map fun e => (e.id, e.status)) = .ok [(⟨"m"⟩, .added)] := by decide +kernel
  rw [hentries] at hlines
  have hmem : (e.id, e.status) ∈ entries.map fun e => (e.id, e.status) := List.mem_map_of_mem he
  rw [Except.ok.inj hlines, hst] at hmem
  exact absurd hmem (by simp)

end Comparison

end GraphDelta
