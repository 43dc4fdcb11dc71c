/-
**The levels of a batch.**

Until their top is left out, the additions of a comparison are records of the map in which their
ancestors are looked up.  Then all climbs of a ranking follow the same pointers, whichever addition they
start from: each object points to its parent, as long as that belongs to the batch.  How deep an addition
is can be read off these pointers.  It does not matter which climb comes to it first, nor in which order
the additions are listed, and only a cycle of these pointers keeps a batch from being ranked.

Main definitions:

* `NodeMap.parentWithin?` — the parent of an object, where it belongs to a batch.

Main results:

* `Ranking.pointer_eq_parentWithin?` — what the climbs follow;
* `Ranking.Ranked.le_depth_iff` — **a depth counts the ancestors in a row that belong to the batch**;
* `Ranking.exists_ofBatch_eq_ok_iff` — only cycles within the batch are in the way;
* `Ranking.ofBatch_eq_ok_of_perm` — the order of the additions does not show in their ranking;
* `Ranking.filter_sort`, `Ranking.mem_before_of_sort` — what is kept, and what comes first, in a sorted
  batch;
* `Ranking.ofBatch_ranks` — **which batches are ranked, and how they are sorted**.
-/
import GraphDelta.Proofs.Depth

set_option autoImplicit false

namespace GraphDelta

variable {batch : List Ident} {m : NodeMap} {additions : List Node} {n : Node} {x y z : Ident} {k : Nat}

/-! ### Parents within a batch -/

namespace NodeMap

/-- The parent of an object, where it belongs to the batch. -/
def parentWithin? (m : NodeMap) (batch : List Ident) (id : Ident) : Option Ident :=
  (m.parent? id).filter fun p => batch.contains p

theorem parentWithin?_eq_some_iff :
    m.parentWithin? batch x = some y ↔ m.parent? x = some y ∧ y ∈ batch := by
  rw [parentWithin?, Option.filter_eq_some_iff, List.contains_iff_mem]

theorem parentWithin?_congr {batch' : List Ident} (h : ∀ id, id ∈ batch ↔ id ∈ batch') :
    m.parentWithin? batch = m.parentWithin? batch' := by
  funext x
  refine Option.ext fun y => ?_
  rw [parentWithin?_eq_some_iff, parentWithin?_eq_some_iff, h]

theorem mem_of_leadsOn_parentWithin? (h : LeadsOn (m.parentWithin? batch) x y) : y ∈ batch := by
  obtain ⟨k, hk⟩ := h
  rw [follow_succ_right] at hk
  obtain ⟨a, -, hy⟩ := Option.bind_eq_some_iff.1 hk
  exact (parentWithin?_eq_some_iff.1 hy).2

theorem mem_of_leads_parentWithin? (h : Leads (m.parentWithin? batch) x y) (hx : x ∈ batch) :
    y ∈ batch := by
  rcases leads_iff.1 h with rfl | h
  · exact hx
  · exact mem_of_leadsOn_parentWithin? h

end NodeMap

namespace Ranking

/-! ### What the climbs follow -/

/-- A climb from a record of the map takes nothing but the map into account. -/
theorem pointer_eq_parentIn? (hn : m[n.id]? = some n) : pointer batch m n = parentIn? batch m := by
  funext x
  by_cases hx : x = n.id
  · rw [hx, pointer_self, parentIn?, hn]
    rfl
  · exact pointer_of_ne hx

theorem parentIn?_eq_parentWithin? (hbatch : ∀ id ∈ batch, id ∈ m) :
    parentIn? batch m = m.parentWithin? batch := by
  funext x
  refine Option.ext fun y => ?_
  rw [parentIn?, Option.bind_eq_some_iff, NodeMap.parentWithin?_eq_some_iff,
    NodeMap.parent?_eq_some_iff]
  constructor
  · rintro ⟨a, ha, hy⟩
    obtain ⟨hp, hmem, -⟩ := batchParent?_eq_some_iff.1 hy
    exact ⟨⟨a, ha, hp⟩, hmem⟩
  · rintro ⟨⟨a, ha, hp⟩, hmem⟩
    exact ⟨a, ha, batchParent?_eq_some_iff.2 ⟨hp, hmem, hbatch y hmem⟩⟩

section Records

variable {r r' : Ranking} (hadd : ∀ n ∈ additions, m[n.id]? = some n)

include hadd

/-- **All climbs follow the same pointers.** -/
theorem pointer_eq_parentWithin? (hn : n ∈ additions) :
    pointer (additions.map Node.id) m n = m.parentWithin? (additions.map Node.id) := by
  rw [pointer_eq_parentIn? (hadd n hn), parentIn?_eq_parentWithin?]
  intro id hid
  obtain ⟨a, ha, rfl⟩ := List.mem_map.1 hid
  exact NodeMap.mem_of_getElem?_eq_some (hadd a ha)

/-! ### Depths -/

theorem Ranked.follows_parentWithin? (h : Ranked (additions.map Node.id) m additions r)
    (hx : x ∈ additions.map Node.id) : r.Follows (m.parentWithin? (additions.map Node.id)) x := by
  obtain ⟨n, hn, rfl⟩ := List.mem_map.1 hx
  rw [← pointer_eq_parentWithin? hadd hn]
  exact h.follows_of_getElem? hadd hn

/-- **A depth counts the ancestors in a row that belong to the batch.** -/
theorem Ranked.le_depth_iff (h : Ranked (additions.map Node.id) m additions r)
    (hx : x ∈ additions.map Node.id) : k ≤ r.depth x ↔
      ∃ y, follow (m.parentWithin? (additions.map Node.id)) k x = some y := by
  induction k generalizing x with
  | zero => exact iff_of_true (Nat.zero_le _) ⟨x, rfl⟩
  | succ k ih =>
      have hfollows := h.follows_parentWithin? hadd hx
      rw [follow_succ]
      cases hy : m.parentWithin? (additions.map Node.id) x with
      | none =>
          rw [hfollows.depth_eq_zero hy]
          simp
      | some y =>
          rw [hfollows.depth_eq_succ hy, Nat.succ_le_succ_iff]
          exact ih (NodeMap.parentWithin?_eq_some_iff.1 hy).2

theorem Ranked.not_circular (h : Ranked (additions.map Node.id) m additions r) (z : Ident) :
    ¬ Circular (m.parentWithin? (additions.map Node.id)) z := by
  intro hz
  have hmem : z ∈ additions.map Node.id := NodeMap.mem_of_leadsOn_parentWithin? hz
  refine hz.not_ends ⟨r.depth z + 1, Option.eq_none_iff_forall_ne_some.2 fun y hy => ?_⟩
  exact Nat.not_succ_le_self _ ((h.le_depth_iff hadd hmem).2 ⟨y, hy⟩)

theorem exists_ofBatch_eq_ok_iff : (∃ r, ofBatch additions m = .ok r) ↔
    ∀ z, ¬ Circular (m.parentWithin? (additions.map Node.id)) z := by
  constructor
  · rintro ⟨r, hr⟩
    exact (ranked_of_ofBatch hr).not_circular hadd
  · intro h
    refine exists_ofBatch_eq_ok fun n hn => ?_
    rw [pointer_eq_parentWithin? hadd hn]
    exact h

theorem Ranked.mem_depths_iff (h : Ranked (additions.map Node.id) m additions r) :
    x ∈ r.depths ↔ x ∈ additions.map Node.id := by
  constructor
  · intro hx
    obtain ⟨n, hn, hleads⟩ := h.leads x hx
    rw [pointer_eq_parentWithin? hadd hn] at hleads
    exact NodeMap.mem_of_leads_parentWithin? hleads (List.mem_map_of_mem hn)
  · intro hx
    obtain ⟨n, hn, rfl⟩ := List.mem_map.1 hx
    exact h.mem n hn

/-- Rankings of the same additions are equal, in whatever order and how often they are listed. -/
theorem Ranked.eq_of_mem_iff {l : List Node} (hl : ∀ n, n ∈ l ↔ n ∈ additions)
    (h : Ranked (additions.map Node.id) m additions r) (h' : Ranked (l.map Node.id) m l r') :
    r' = r := by
  have hadd' : ∀ n ∈ l, m[n.id]? = some n := fun n hn => hadd n ((hl n).1 hn)
  have hbatch (id : Ident) : id ∈ l.map Node.id ↔ id ∈ additions.map Node.id := by
    simp only [List.mem_map, hl]
  have hdepths : r'.depths = r.depths := by
    refine Std.ExtTreeMap.ext_getElem? fun {x} => ?_
    by_cases hx : x ∈ additions.map Node.id
    · have hle (k : Nat) : k ≤ r'.depth x ↔ k ≤ r.depth x := by
        rw [h'.le_depth_iff hadd' ((hbatch x).2 hx), h.le_depth_iff hadd hx,
          NodeMap.parentWithin?_congr hbatch]
      have hdepth : r'.depth x = r.depth x :=
        Nat.le_antisymm ((hle _).1 (Nat.le_refl _)) ((hle _).2 (Nat.le_refl _))
      rw [getElem?_depths_of_mem ((h'.mem_depths_iff hadd').2 ((hbatch x).2 hx)),
        getElem?_depths_of_mem ((h.mem_depths_iff hadd).2 hx), hdepth]
    · have hx' : x ∉ r'.depths := fun hmem => hx ((hbatch x).1 ((h'.mem_depths_iff hadd').1 hmem))
      rw [Std.ExtTreeMap.getElem?_eq_none hx',
        Std.ExtTreeMap.getElem?_eq_none fun hmem => hx ((h.mem_depths_iff hadd).1 hmem)]
  cases r
  cases r'
  exact congrArg Ranking.mk hdepths

/-- **The order of the additions does not show in their ranking.** -/
theorem ofBatch_eq_ok_of_perm {l : List Node} (hl : l.Perm additions)
    (h : ofBatch additions m = .ok r) : ofBatch l m = .ok r := by
  have hranked := ranked_of_ofBatch h
  have hadd' : ∀ n ∈ l, m[n.id]? = some n := fun n hn => hadd n (hl.mem_iff.1 hn)
  have hbatch (id : Ident) : id ∈ l.map Node.id ↔ id ∈ additions.map Node.id :=
    (hl.map Node.id).mem_iff
  obtain ⟨r', hr'⟩ : ∃ r', ofBatch l m = .ok r' := by
    rw [exists_ofBatch_eq_ok_iff hadd', NodeMap.parentWithin?_congr hbatch]
    exact hranked.not_circular hadd
  rw [hr', hranked.eq_of_mem_iff hadd (fun _ => hl.mem_iff) (ranked_of_ofBatch hr')]

end Records

/-! ### Sorted batches -/

/-- Additions of one depth and one place come out as they went in. -/
theorem filter_sort (r : Ranking) (additions : List Node) (d : Nat) (i : Int32) :
    (r.sort additions).filter (fun n => r.depth n.id = d ∧ n.index = i) =
      additions.filter fun n => r.depth n.id = d ∧ n.index = i := by
  refine filter_stableSort (fun a b ha hb => ?_) additions
  obtain ⟨hda, hia⟩ := of_decide_eq_true ha
  obtain ⟨hdb, hib⟩ := of_decide_eq_true hb
  rw [compare_isLE_iff]
  exact .inr ⟨hda.trans hdb.symm, Int32.le_of_eq (hia.trans hib.symm)⟩

/-- What is less deep than an addition comes before it, as often as it is listed. -/
theorem mem_before_of_sort {r : Ranking} {before after : List Node} {a : Node}
    (hl : r.sort additions = before ++ n :: after) (ha : a ∈ additions)
    (hlt : r.depth a.id < r.depth n.id) : a ∈ before ∧ a ∉ n :: after := by
  have hsorted := r.pairwise_sort additions
  rw [hl, List.pairwise_append, List.pairwise_cons] at hsorted
  have hafter : a ∉ n :: after := by
    intro hmem
    rcases List.mem_cons.1 hmem with rfl | hmem
    · omega
    · have := hsorted.2.1.1 a hmem
      omega
  have hmem : a ∈ before ++ n :: after := hl ▸ mem_stableSort.2 ha
  exact ⟨(List.mem_append.1 hmem).resolve_right hafter, hafter⟩

/-- **Which batches are ranked, and how they are sorted.**  If the additions are records of the map, then
ranking them fails exactly if a chain of parents within the batch is a cycle.  Otherwise the depth of
each addition is the number of its ancestors in a row that belong to the batch, whatever the order in
which they are listed.  Sorted, the additions are still the same ones.  Each comes after its parent,
those of one parent come in the order of their places, and those of one depth and one place come in the
order in which they were listed. -/
theorem ofBatch_ranks (additions : List Node) (m : NodeMap)
    (hadd : ∀ n ∈ additions, m[n.id]? = some n) :
    ((∃ e, ofBatch additions m = .error e) ↔
      ∃ id, Circular (m.parentWithin? (additions.map Node.id)) id) ∧
    ∀ r, ofBatch additions m = .ok r →
      (∀ n ∈ additions, ∀ k, k ≤ r.depth n.id ↔
        ∃ y, follow (m.parentWithin? (additions.map Node.id)) k n.id = some y) ∧
      (∀ l, l.Perm additions → ofBatch l m = .ok r) ∧
      replayOrder additions m = .ok (r.sort additions) ∧
      (r.sort additions).Perm additions ∧
      (∀ before n after, r.sort additions = before ++ n :: after → ∀ a ∈ additions,
        n.parent = some a.id → a ∈ before ∧ a ∉ n :: after) ∧
      ((r.sort additions).Pairwise fun a b => a.parent = b.parent → a.index ≤ b.index) ∧
      ∀ d i, (r.sort additions).filter (fun n => r.depth n.id = d ∧ n.index = i) =
        additions.filter fun n => r.depth n.id = d ∧ n.index = i := by
  constructor
  · rw [← not_iff_not, not_exists (p := fun id => Circular _ id), ← exists_ofBatch_eq_ok_iff hadd]
    cases ofBatch additions m <;> simp
  · intro r hr
    have hranked := ranked_of_ofBatch hr
    have horder : replayOrder additions m = .ok (r.sort additions) := by rw [replayOrder, hr]; rfl
    have hperm := perm_of_replayOrder_eq_ok horder
    refine ⟨fun n hn k => hranked.le_depth_iff hadd (List.mem_map_of_mem hn),
      fun l hl => ofBatch_eq_ok_of_perm hadd hl hr, horder, hperm, ?_,
      pairwise_index_of_replayOrder hadd horder, r.filter_sort additions⟩
    intro before n after hl a ha hp
    have hn : n ∈ additions :=
      hperm.mem_iff.1 (hl ▸ List.mem_append_right before List.mem_cons_self)
    have hdepth := (hranked.follows_of_getElem? hadd hn).depth_eq hp (List.mem_map_of_mem ha)
      (NodeMap.mem_of_getElem?_eq_some (hadd a ha))
    exact mem_before_of_sort hl ha (by omega)

/-- Children are listed before their parents, two additions agree in depth and place, and one parent is
in the map only.  In the second batch two objects are each other's parents. -/
theorem ofBatch_ranks_children_first :
    let additions : List Node :=
      [⟨some ⟨"c"⟩, "T", ⟨"a"⟩, 0⟩, ⟨some ⟨"r"⟩, "T", ⟨"d"⟩, 1⟩, ⟨some ⟨"r"⟩, "T", ⟨"c"⟩, 1⟩,
        ⟨some ⟨"w"⟩, "T", ⟨"r"⟩, 0⟩]
    let m : NodeMap := .ofList (⟨none, "T", ⟨"w"⟩, 0⟩ :: additions)
    let circle : List Node := [⟨some ⟨"y"⟩, "T", ⟨"x"⟩, 0⟩, ⟨some ⟨"x"⟩, "T", ⟨"y"⟩, 0⟩]
    (∀ n ∈ additions, m[n.id]? = some n) ∧
    (∃ r, ofBatch additions m = .ok r ∧ ofBatch additions.reverse m = .ok r ∧
      additions.map (fun n => r.depth n.id) = [2, 1, 1, 0] ∧
      (r.sort additions).map Node.id = [⟨"r"⟩, ⟨"d"⟩, ⟨"c"⟩, ⟨"a"⟩] ∧
      (r.sort additions).Pairwise fun a b => a.parent = b.parent → a.index ≤ b.index) ∧
    ∃ e, ofBatch circle (.ofList circle) = .error e := by
  intro additions m circle
  have hadd : ∀ n ∈ additions, m[n.id]? = some n := by decide +kernel
  have hcircle : ∀ n ∈ circle, (NodeMap.ofList circle)[n.id]? = some n := by decide +kernel
  obtain ⟨r, hr, hdepths, hsorted⟩ : ∃ r, ofBatch additions m = .ok r ∧
      additions.map (fun n => r.depth n.id) = [2, 1, 1, 0] ∧
      (r.sort additions).map Node.id = [⟨"r"⟩, ⟨"d"⟩, ⟨"c"⟩, ⟨"a"⟩] :=
    ⟨_, by rfl, by decide +kernel, by decide +kernel⟩
  obtain ⟨-, hperm, -, -, -, hplaces, -⟩ := (ofBatch_ranks additions m hadd).2 r hr
  refine ⟨hadd, ⟨r, hr, hperm _ additions.reverse_perm, hdepths, hsorted, hplaces⟩, ?_⟩
  exact (ofBatch_ranks circle _ hcircle).1.2 ⟨⟨"x"⟩, 1, by decide +kernel⟩

end Ranking

end GraphDelta
