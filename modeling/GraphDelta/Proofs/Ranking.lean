/-
**When additions can be put into an order.**

Ranking a batch of additions climbs from each of them over ancestors in the batch, up to one that has a
depth already.  It succeeds unless one of these climbs runs into a cycle.  Where an addition that hangs
under another one does so in a map too, the climbs follow parents of the map, so that a map without
cycles ranks the batch.  The records of the map are such additions.

Main definitions:

* `Ranking.pointer` — the pointers that the climb from an addition follows.

Main results:

* `Ranking.exists_settle_eq_ok`, `Ranking.exists_ofBatch_eq_ok` — additions are ranked unless there is a
  cycle to run into;
* `Ranking.not_circular_pointer` — there is none above additions that hang where they hang in a map
  without cycles;
* `exists_replayOrder_eq_ok_of_parents`, `exists_replayOrder_eq_ok` — **such additions have an order**,
  which lists the same records.
-/
import GraphDelta.Ranking
import GraphDelta.Proofs.Subtree

set_option autoImplicit false

namespace GraphDelta

variable {batch : List Ident} {m : NodeMap} {n : Node} {x y : Ident}

namespace Ranking

/-- The pointers that the climb from an addition follows: its own record comes from the batch, those
above it from the map. -/
def pointer (batch : List Ident) (m : NodeMap) (n : Node) (id : Ident) : Option Ident :=
  if id = n.id then batchParent? batch m n else m[id]?.bind (batchParent? batch m)

theorem settle_eq (batch : List Ident) (m : NodeMap) (r : Ranking) (n : Node) :
    settle batch m r n =
      match m.climb (pointer batch m n) r.depths.contains .empty n.id with
      | .top path => .ok (assign 0 path r)
      | .stopped known path => .ok (assign (r.depth known + 1) path r)
      | .looped entry => .error (.cycle entry) := rfl

theorem parent_of_batchParent? (h : batchParent? batch m n = some y) : n.parent = some y :=
  Option.eq_some_of_filter_eq_some h

/-- Climbs from an addition that hangs where it hangs in the map follow parents of the map. -/
theorem parent?_of_pointer (hn : ∀ p, batchParent? batch m n = some p → m.parent? n.id = some p)
    (h : pointer batch m n x = some y) : m.parent? x = some y := by
  rw [pointer] at h
  split at h
  · rename_i hx
    exact hx ▸ hn y h
  · obtain ⟨a, ha, hy⟩ := Option.bind_eq_some_iff.1 h
    exact NodeMap.parent?_eq_some_iff.2 ⟨a, ha, parent_of_batchParent? hy⟩

theorem eq_or_mem_of_pointer (h : pointer batch m n x = some y) : x = n.id ∨ x ∈ m := by
  rw [pointer] at h
  split at h
  · exact .inl ‹_›
  · obtain ⟨a, ha, -⟩ := Option.bind_eq_some_iff.1 h
    exact .inr (NodeMap.mem_of_getElem?_eq_some ha)

theorem not_circular_pointer (hm : m.Acyclic)
    (hn : ∀ p, batchParent? batch m n = some p → m.parent? n.id = some p) (z : Ident) :
    ¬ Circular (pointer batch m n) z :=
  fun hz => hm z (hz.mono fun _ _ => parent?_of_pointer hn)

/-- An addition is ranked unless its climb runs into a cycle, whatever has been ranked before. -/
theorem exists_settle_eq_ok (h : ∀ z, ¬ Circular (pointer batch m n) z) (r : Ranking) :
    ∃ r', settle batch m r n = .ok r' := by
  -- the depths that are known already only end the climb earlier, whatever they are
  have hsound : (m.climb (pointer batch m n) r.depths.contains .empty n.id).Sound
      (pointer batch m n) r.depths.contains n.id 0 :=
    NodeMap.climb_empty_sound fun _ _ => eq_or_mem_of_pointer
  rw [settle_eq]
  cases hc : m.climb (pointer batch m n) r.depths.contains .empty n.id with
  | top path => exact ⟨_, rfl⟩
  | stopped known path => exact ⟨_, rfl⟩
  | looped entry =>
      rw [hc] at hsound
      obtain ⟨-, hcycle, -⟩ := hsound.of_looped (Nat.zero_le 1)
      exact absurd hcycle (h entry)

theorem exists_ofBatch_eq_ok {additions : List Node}
    (h : ∀ n ∈ additions, ∀ z, ¬ Circular (pointer (additions.map Node.id) m n) z) :
    ∃ r, ofBatch additions m = .ok r := by
  cases hr : ofBatch additions m with
  | ok r => exact ⟨r, rfl⟩
  | error e =>
      obtain ⟨n, hn, r, hsettle⟩ := exists_of_foldlM_eq_error hr
      obtain ⟨r', hr'⟩ : ∃ r', settle (additions.map Node.id) m r n = .ok r' :=
        exists_settle_eq_ok (h n hn) r
      rw [hr'] at hsettle
      cases hsettle

end Ranking

theorem perm_of_replayOrder_eq_ok {additions l : List Node} (h : replayOrder additions m = .ok l) :
    l.Perm additions := by
  rw [replayOrder] at h
  cases hr : Ranking.ofBatch additions m with
  | error e => rw [hr] at h; cases h
  | ok r => rw [hr] at h; cases h; exact stableSort_perm _ additions

/-- **Additions that hang where they hang in a map without cycles have an order**, which lists the same
records. -/
theorem exists_replayOrder_eq_ok_of_parents {additions : List Node} (hm : m.Acyclic)
    (hadd : ∀ n ∈ additions, ∀ p,
      Ranking.batchParent? (additions.map Node.id) m n = some p → m.parent? n.id = some p) :
    ∃ l, replayOrder additions m = .ok l ∧ l.Perm additions := by
  obtain ⟨r, hr⟩ := Ranking.exists_ofBatch_eq_ok fun n hn =>
    Ranking.not_circular_pointer hm (hadd n hn)
  have hl : replayOrder additions m = .ok (r.sort additions) := by rw [replayOrder, hr]; rfl
  exact ⟨_, hl, perm_of_replayOrder_eq_ok hl⟩

theorem exists_replayOrder_eq_ok {additions : List Node} (hm : m.Acyclic)
    (hadd : ∀ n ∈ additions, m[n.id]? = some n) :
    ∃ l, replayOrder additions m = .ok l ∧ l.Perm additions := by
  refine exists_replayOrder_eq_ok_of_parents hm fun n hn p hp => ?_
  exact NodeMap.parent?_eq_some_iff.2 ⟨n, hadd n hn, Ranking.parent_of_batchParent? hp⟩

end GraphDelta
