/-
**Which order the additions are put into.**

The depth of an addition is meant to be the number of its ancestors in a row that belong to the batch.
A ranking is filled in by climbs that stop at the first depth that is known already; the depths of what
was climbed over follow from that one, and they never change again.

A climb starts with the parent that the record of an addition names, and goes on with the parents of the
map.  So the depth of an addition follows from its own record if the climb from it was the first to come
to it, and from the map if another one was faster.  Where the record names the same parent as the map,
that makes no difference, and a batch that is sorted by depth lists each parent before its children, and
the children of one parent by their place.

Main definitions:

* `Ranking.parentIn?` — the parent of an object in the map, where it belongs to the batch;
* `Ranking.Follows` — the depth of an object follows from where it points to;
* `Ranking.Grows` — what one climb adds to a ranking;
* `Ranking.Ranked` — what is known after the climbs from some additions.

Main results:

* `Ranking.grows_of_settle`, `Ranking.ranked_of_ofBatch` — **where the depths come from**, for any
  records and any map;
* `Ranking.Ranked.follows_of_eq` — a record that agrees with the map has a depth that follows from it;
* `pairwise_of_replayOrder` — **parents come before their children, and children of one parent in the
  order of their places**, as far as depths follow from the records;
* `parent_mem_of_replayOrder`, `pairwise_index_of_replayOrder` — the same for records of the map.
-/
import GraphDelta.Proofs.Ranking

set_option autoImplicit false

namespace GraphDelta

variable {next next' : Ident → Option Ident} {x y s : Ident} {d : Nat} {path : List Ident}
  {batch : List Ident} {m : NodeMap} {n : Node} {r r' r'' : Ranking}

namespace Ranking

/-! ### Where objects point to -/

/-- The parent of an object, where it belongs to the batch and to the map. -/
def parentIn? (batch : List Ident) (m : NodeMap) (id : Ident) : Option Ident :=
  m[id]?.bind (batchParent? batch m)

theorem pointer_self (batch : List Ident) (m : NodeMap) (n : Node) :
    pointer batch m n n.id = batchParent? batch m n := if_pos rfl

theorem pointer_of_ne (hx : x ≠ n.id) : pointer batch m n x = parentIn? batch m x := if_neg hx

theorem batchParent?_eq_some_iff :
    batchParent? batch m n = some y ↔ n.parent = some y ∧ y ∈ batch ∧ y ∈ m := by
  rw [batchParent?, Option.filter_eq_some_iff, Bool.and_eq_true, List.contains_iff_mem,
    Std.ExtTreeMap.mem_iff_contains]

/-! ### Depths that follow -/

/-- The depth of an object follows from where it points to: nowhere, or to something that is less deep
by one. -/
def Follows (r : Ranking) (next : Ident → Option Ident) (x : Ident) : Prop :=
  match next x with
  | none => r.depths[x]? = some 0
  | some y => ∃ d, r.depths[y]? = some d ∧ r.depths[x]? = some (d + 1)

/-- Every depth that is known stays the same. -/
def Extends (r r' : Ranking) : Prop :=
  ∀ (id : Ident) (d : Nat), r.depths[id]? = some d → r'.depths[id]? = some d

theorem Extends.trans (h : r.Extends r') (h' : r'.Extends r'') : r.Extends r'' :=
  fun id d hd => h' id d (h id d hd)

theorem Extends.mem (h : r.Extends r') (hx : x ∈ r.depths) : x ∈ r'.depths := by
  rw [Std.ExtTreeMap.mem_iff_isSome_getElem?, Option.isSome_iff_exists] at hx ⊢
  obtain ⟨d, hd⟩ := hx
  exact ⟨d, h x d hd⟩

theorem getElem?_depths_of_mem (hx : x ∈ r.depths) : r.depths[x]? = some (r.depth x) := by
  obtain ⟨d, hd⟩ := Option.isSome_iff_exists.1 (Std.ExtTreeMap.mem_iff_isSome_getElem?.1 hx)
  rw [depth, hd]
  rfl

theorem Follows.extends (h : r.Follows next x) (hr : r.Extends r') : r'.Follows next x := by
  rw [Follows] at h ⊢
  cases hx : next x with
  | none =>
      rw [hx] at h
      exact hr x 0 h
  | some y =>
      rw [hx] at h
      obtain ⟨d, hy, hd⟩ := h
      exact ⟨d, hr y d hy, hr x (d + 1) hd⟩

theorem Follows.congr (h : r.Follows next x) (hx : next x = next' x) : r.Follows next' x := by
  rw [Follows, ← hx]
  exact h

theorem Follows.depth_eq_zero (h : r.Follows next x) (hx : next x = none) : r.depth x = 0 := by
  rw [Follows, hx] at h
  rw [depth, h]
  rfl

theorem Follows.depth_eq_succ (h : r.Follows next x) (hx : next x = some y) :
    r.depth x = r.depth y + 1 := by
  rw [Follows, hx] at h
  obtain ⟨d, hy, hd⟩ := h
  rw [depth, depth, hy, hd]
  rfl

/-! ### One climb -/

theorem extends_insert (hx : x ∉ r.depths) (d : Nat) : r.Extends ⟨r.depths.insert x d⟩ := by
  intro id e he
  rw [Std.ExtTreeMap.getElem?_insert, if_neg, he]
  intro hid
  cases Std.LawfulEqOrd.eq_of_compare hid
  rw [Std.ExtTreeMap.getElem?_eq_none hx] at he
  cases he

theorem mem_depths_assign : x ∈ (assign d path r).depths ↔ x ∈ path ∨ x ∈ r.depths := by
  induction path generalizing d r with
  | nil => simp [assign]
  | cons y path ih =>
      rw [assign, ih, Std.ExtTreeMap.mem_insert, Std.LawfulEqOrd.compare_eq_iff_eq, List.mem_cons,
        @eq_comm _ y x, or_left_comm, or_assoc]

/-- The depths of what was climbed over follow from the known one at the end. -/
theorem assign_follows (h : Climbed next s path y) (hnodup : path.Nodup)
    (hfresh : ∀ x ∈ path, x ∉ r.depths) (hy : r.depths[y]? = some d) :
    r.Extends (assign (d + 1) path r) ∧ ∀ x ∈ path, (assign (d + 1) path r).Follows next x := by
  induction h generalizing d r with
  | start => exact ⟨fun _ _ hd => hd, fun x hx => absurd hx List.not_mem_nil⟩
  | @step path x y h hxy ih =>
      rw [List.nodup_cons] at hnodup
      rw [List.forall_mem_cons] at hfresh
      have hfirst : r.Extends ⟨r.depths.insert x (d + 1)⟩ := extends_insert hfresh.1 (d + 1)
      have hx : (r.depths.insert x (d + 1))[x]? = some (d + 1) := Std.ExtTreeMap.getElem?_insert_self
      have hfresh' : ∀ z ∈ path, z ∉ r.depths.insert x (d + 1) := by
        intro z hz hmem
        rcases Std.ExtTreeMap.mem_insert.1 hmem with hzx | hmem
        · cases Std.LawfulEqOrd.eq_of_compare hzx
          exact hnodup.1 hz
        · exact hfresh.2 z hz hmem
      obtain ⟨hrest, hfollows⟩ := ih hnodup.2 hfresh' hx
      have hfollows_x : Follows ⟨r.depths.insert x (d + 1)⟩ next x := by
        rw [Follows, hxy]
        exact ⟨d, hfirst y d hy, hx⟩
      rw [assign, List.forall_mem_cons]
      exact ⟨hfirst.trans hrest, hfollows_x.extends hrest, hfollows⟩

/-- What the climb from `s` adds to a ranking: the depth of its start, and depths that follow from where
the climb has gone. -/
structure Grows (next : Ident → Option Ident) (s : Ident) (r r' : Ranking) : Prop where
  keeps : r.Extends r'
  start : s ∈ r'.depths
  fresh : ∀ x ∈ r'.depths, x ∉ r.depths → Leads next s x ∧ r'.Follows next x

theorem Grows.of_known (h : Climbed next s path y) (hfresh : ∀ x ∈ path, x ∉ r.depths)
    (hy : r.depths[y]? = some d) : Grows next s r (assign (d + 1) path r) := by
  have hmem : y ∈ r.depths := by
    rw [Std.ExtTreeMap.mem_iff_isSome_getElem?, hy]
    rfl
  obtain ⟨hkeeps, hfollows⟩ :=
    assign_follows h (h.nodup fun hpath => hfresh y hpath hmem) hfresh hy
  refine ⟨hkeeps, ?_, ?_⟩
  · rcases h.mem_or_eq with hpath | rfl
    · exact mem_depths_assign.2 (.inl hpath)
    · exact mem_depths_assign.2 (.inr hmem)
  · intro x hx hno
    have hx := (mem_depths_assign.1 hx).resolve_right hno
    exact ⟨h.leads_of_mem hx, hfollows x hx⟩

theorem Grows.of_top (h : Climbed next s path y) (hfresh : ∀ x ∈ y :: path, x ∉ r.depths)
    (hy : next y = none) : Grows next s r (assign 0 (y :: path) r) := by
  rw [List.forall_mem_cons] at hfresh
  have hpath : ∀ x ∈ path, x ∉ r.depths.insert y 0 := by
    intro x hx hmem
    rcases Std.ExtTreeMap.mem_insert.1 hmem with hxy | hmem
    · cases Std.LawfulEqOrd.eq_of_compare hxy
      obtain ⟨z, hz, -⟩ := leadsOn_iff.1 (h.leadsOn hx)
      rw [hy] at hz
      cases hz
    · exact hfresh.2 x hx hmem
  have hzero : (r.depths.insert y 0)[y]? = some 0 := Std.ExtTreeMap.getElem?_insert_self
  have hfirst : r.Extends ⟨r.depths.insert y 0⟩ := extends_insert hfresh.1 0
  have hrest : Grows next s ⟨r.depths.insert y 0⟩ (assign 0 (y :: path) r) :=
    .of_known h hpath hzero
  refine ⟨hfirst.trans hrest.keeps, hrest.start, ?_⟩
  intro x hx hno
  by_cases hold : x ∈ r.depths.insert y 0
  · have hyx := (Std.ExtTreeMap.mem_insert.1 hold).resolve_right hno
    cases Std.LawfulEqOrd.eq_of_compare hyx
    have hfollows : Follows ⟨r.depths.insert y 0⟩ next y := by
      rw [Follows, hy]
      exact hzero
    exact ⟨h.leads, hfollows.extends hrest.keeps⟩
  · exact hrest.fresh x hx hold

/-- **What one climb adds to a ranking.** -/
theorem grows_of_settle (h : settle batch m r n = .ok r') : Grows (pointer batch m n) n.id r r' := by
  have hsound : (m.climb (pointer batch m n) r.depths.contains .empty n.id).Sound
      (pointer batch m n) r.depths.contains n.id 0 :=
    NodeMap.climb_empty_sound fun _ _ hab => eq_or_mem_of_pointer hab
  have hunknown {k : Nat} {x : Ident} {path : List Ident}
      (hpassed : Passed (pointer batch m n) r.depths.contains n.id 0 path.length)
      (hk : k < path.length) (hx : follow (pointer batch m n) k n.id = some x) : x ∉ r.depths := by
    rw [Std.ExtTreeMap.mem_iff_contains, hpassed k x (Nat.zero_le k) hk hx]
    exact Bool.false_ne_true
  rw [settle_eq] at h
  cases hc : m.climb (pointer batch m n) r.depths.contains .empty n.id with
  | top path =>
      rw [hc] at h hsound
      cases h
      obtain ⟨y, rest, rfl, hclimbed, hy, hpassed⟩ := hsound
      refine .of_top hclimbed ?_ hy
      rw [List.forall_mem_cons]
      refine ⟨hunknown hpassed (Nat.lt_succ_self _) hclimbed.follow_eq, ?_⟩
      intro x hx
      obtain ⟨k, hk, hkx⟩ := hclimbed.mem_path_iff.1 hx
      exact hunknown hpassed (Nat.lt_succ_of_lt hk) hkx
  | stopped y path =>
      rw [hc] at h hsound
      cases h
      obtain ⟨-, hclimbed, hy, hpassed⟩ := hsound
      have hmem : y ∈ r.depths := Std.ExtTreeMap.mem_iff_contains.2 hy
      refine .of_known hclimbed ?_ (getElem?_depths_of_mem hmem)
      intro x hx
      obtain ⟨k, hk, hkx⟩ := hclimbed.mem_path_iff.1 hx
      exact hunknown hpassed hk hkx
  | looped y =>
      rw [hc] at h
      cases h

/-! ### One climb after the other -/

/-- What is known after the climbs from some additions. -/
structure Ranked (batch : List Ident) (m : NodeMap) (done : List Node) (r : Ranking) : Prop where
  mem : ∀ n ∈ done, n.id ∈ r.depths
  leads : ∀ x ∈ r.depths, ∃ n ∈ done, Leads (pointer batch m n) n.id x
  /-- A depth follows from the map, or from the record of an addition. -/
  follows : ∀ x ∈ r.depths, r.Follows (parentIn? batch m) x ∨
    ∃ n ∈ done, n.id = x ∧ r.Follows (pointer batch m n) x
  /-- It follows from the record if no climb before has come to the addition. -/
  own : ∀ before n after, done = before ++ n :: after →
    (∀ a ∈ before, ¬ Leads (pointer batch m a) a.id n.id) → r.Follows (pointer batch m n) n.id

variable {done additions : List Node}

theorem ranked_empty : Ranked batch m [] ⟨∅⟩ where
  mem n hn := absurd hn List.not_mem_nil
  leads x hx := absurd hx (by simp)
  follows x hx := absurd hx (by simp)
  own before n after h := by simp at h

theorem Ranked.step (h : Ranked batch m done r) (hn : settle batch m r n = .ok r') :
    Ranked batch m (done ++ [n]) r' := by
  have hgrows := grows_of_settle hn
  refine ⟨?_, ?_, ?_, ?_⟩
  · rw [List.forall_mem_append, List.forall_mem_singleton]
    exact ⟨fun a ha => hgrows.keeps.mem (h.mem a ha), hgrows.start⟩
  · intro x hx
    by_cases hold : x ∈ r.depths
    · obtain ⟨a, ha, hleads⟩ := h.leads x hold
      exact ⟨a, List.mem_append_left [n] ha, hleads⟩
    · exact ⟨n, List.mem_append_right done List.mem_cons_self, (hgrows.fresh x hx hold).1⟩
  · intro x hx
    by_cases hold : x ∈ r.depths
    · rcases h.follows x hold with hmap | ⟨a, ha, hid, hrecord⟩
      · exact .inl (hmap.extends hgrows.keeps)
      · exact .inr ⟨a, List.mem_append_left [n] ha, hid, hrecord.extends hgrows.keeps⟩
    · have hfollows := (hgrows.fresh x hx hold).2
      by_cases hxn : x = n.id
      · exact .inr ⟨n, List.mem_append_right done List.mem_cons_self, hxn.symm, hfollows⟩
      · exact .inl (hfollows.congr (pointer_of_ne hxn))
  · intro before a after heq hfirst
    rcases List.eq_nil_or_concat' after with rfl | ⟨after, b, rfl⟩
    · obtain ⟨rfl, ha⟩ := List.append_inj' heq rfl
      cases List.singleton_inj.1 ha
      have hnew : n.id ∉ r.depths := by
        intro hmem
        obtain ⟨a, ha, hleads⟩ := h.leads n.id hmem
        exact hfirst a ha hleads
      exact (hgrows.fresh n.id hgrows.start hnew).2
    · rw [← List.cons_append, ← List.append_assoc] at heq
      obtain ⟨rfl, -⟩ := List.append_inj' heq rfl
      exact (h.own before a after rfl hfirst).extends hgrows.keeps

theorem ranked_of_foldlM (h : Ranked batch m done r)
    (hr : additions.foldlM (settle batch m) r = .ok r') : Ranked batch m (done ++ additions) r' := by
  induction additions generalizing done r with
  | nil =>
      cases hr
      rw [List.append_nil]
      exact h
  | cons n additions ih =>
      rw [List.foldlM_cons] at hr
      cases hn : settle batch m r n with
      | error e =>
          rw [hn] at hr
          cases hr
      | ok r₁ =>
          rw [hn] at hr
          rw [List.append_cons]
          exact ih (h.step hn) hr

/-- **Where the depths of a batch come from.** -/
theorem ranked_of_ofBatch (h : ofBatch additions m = .ok r) :
    Ranked (additions.map Node.id) m additions r := ranked_of_foldlM ranked_empty h

/-- The depth of an addition whose record agrees with the map follows from the record, whichever climb
came to it first. -/
theorem Ranked.follows_of_eq (h : Ranked batch m done r) (hn : n ∈ done)
    (hmap : ∀ a ∈ done, a.id = n.id → batchParent? batch m a = parentIn? batch m n.id) :
    r.Follows (pointer batch m n) n.id := by
  have hpointer := (pointer_self batch m n).trans (hmap n hn rfl)
  rcases h.follows n.id (h.mem n hn) with hfollows | ⟨a, ha, hid, hfollows⟩
  · exact hfollows.congr hpointer.symm
  · refine hfollows.congr ?_
    rw [hpointer, ← hmap a ha hid, ← hid, pointer_self]

theorem Follows.depth_eq (h : r.Follows (pointer batch m n) n.id)
    (hp : n.parent = some y) (hbatch : y ∈ batch) (hy : y ∈ m) :
    r.depth n.id = r.depth y + 1 := by
  refine h.depth_eq_succ ?_
  rw [pointer_self]
  exact batchParent?_eq_some_iff.2 ⟨hp, hbatch, hy⟩

theorem Follows.depth_eq_of_parent_eq {a b : Node} (ha : r.Follows (pointer batch m a) a.id)
    (hb : r.Follows (pointer batch m b) b.id) (hp : a.parent = b.parent) :
    r.depth a.id = r.depth b.id := by
  have hpointer : batchParent? batch m a = batchParent? batch m b := by
    rw [batchParent?, batchParent?, hp]
  have hleft := pointer_self batch m a
  have hright := (pointer_self batch m b).trans hpointer.symm
  cases hnext : batchParent? batch m a with
  | none =>
      rw [hnext] at hleft hright
      rw [ha.depth_eq_zero hleft, hb.depth_eq_zero hright]
  | some y =>
      rw [hnext] at hleft hright
      rw [ha.depth_eq_succ hleft, hb.depth_eq_succ hright]

/-! ### Sorting by depth -/

theorem compare_isLE_iff (r : Ranking) (a b : Node) : (r.compare a b).isLE = true ↔
    r.depth a.id < r.depth b.id ∨ r.depth a.id = r.depth b.id ∧ a.index ≤ b.index := by
  rw [compare, Ordering.isLE_then_iff_or, Std.compare_eq_lt, Std.LawfulEqOrd.compare_eq_iff_eq,
    Std.isLE_compare, Int32.le_iff_toInt_le]

theorem pairwise_sort (r : Ranking) (additions : List Node) :
    (r.sort additions).Pairwise fun a b =>
      r.depth a.id < r.depth b.id ∨ r.depth a.id = r.depth b.id ∧ a.index ≤ b.index := by
  have hsorted : (r.sort additions).Pairwise fun a b => (r.compare a b).isLE = true := by
    refine pairwise_stableSort ?_ ?_ additions
    · intro a b c hab hbc
      rw [compare_isLE_iff, Int32.le_iff_toInt_le] at hab hbc ⊢
      omega
    · intro a b
      rw [Bool.or_eq_true, compare_isLE_iff, compare_isLE_iff, Int32.le_iff_toInt_le,
        Int32.le_iff_toInt_le]
      omega
  exact hsorted.imp fun {a b} => (compare_isLE_iff r a b).1

end Ranking

/-! ### The order of a replay -/

variable {additions l before after : List Node}

theorem exists_of_replayOrder_eq_ok (h : replayOrder additions m = .ok l) :
    ∃ r, Ranking.ofBatch additions m = .ok r ∧ l = r.sort additions := by
  rw [replayOrder] at h
  cases hr : Ranking.ofBatch additions m with
  | error e => rw [hr] at h; cases h
  | ok r => rw [hr] at h; cases h; exact ⟨r, rfl, rfl⟩

/-- **The order of a replay**, of any records and over any map.  As far as depths follow from the
records, no addition comes before its parent, and additions under one parent come in the order of their
places. -/
theorem pairwise_of_replayOrder (h : replayOrder additions m = .ok l) {P : Node → Prop}
    (hfollows : ∀ r, Ranking.Ranked (additions.map Node.id) m additions r → ∀ n ∈ additions, P n →
      r.Follows (Ranking.pointer (additions.map Node.id) m n) n.id) :
    l.Pairwise fun a b => (P a → b.id ∈ m → a.parent ≠ some b.id) ∧
      (P a → P b → a.parent = b.parent → a.index ≤ b.index) := by
  have hperm := perm_of_replayOrder_eq_ok h
  obtain ⟨r, hr, rfl⟩ := exists_of_replayOrder_eq_ok h
  have hranked := Ranking.ranked_of_ofBatch hr
  refine (r.pairwise_sort additions).imp_of_mem ?_
  intro a b ha hb hab
  have ha := hperm.mem_iff.1 ha
  have hb := hperm.mem_iff.1 hb
  constructor
  · intro hPa hmem hp
    have hdepth := (hfollows r hranked a ha hPa).depth_eq hp (List.mem_map_of_mem hb) hmem
    omega
  · intro hPa hPb hp
    have hdepth := (hfollows r hranked a ha hPa).depth_eq_of_parent_eq (hfollows r hranked b hb hPb) hp
    rcases hab with hlt | ⟨-, hle⟩
    · omega
    · exact hle

theorem Ranking.Ranked.follows_of_getElem? (hadd : ∀ n ∈ additions, m[n.id]? = some n) {r : Ranking}
    (h : Ranking.Ranked batch m additions r) (hn : n ∈ additions) :
    r.Follows (Ranking.pointer batch m n) n.id := by
  refine h.follows_of_eq hn ?_
  intro a ha hid
  rw [Ranking.parentIn?, ← hid, hadd a ha]
  rfl

/-- **Parents come before their children**, in the order of records of the map. -/
theorem parent_mem_of_replayOrder (hadd : ∀ n ∈ additions, m[n.id]? = some n)
    (h : replayOrder additions m = .ok l) (hl : l = before ++ n :: after) {a : Node}
    (ha : a ∈ additions) (hp : n.parent = some a.id) : a ∈ before := by
  have hperm : (before ++ n :: after).Perm additions := hl ▸ perm_of_replayOrder_eq_ok h
  have hn : n ∈ additions :=
    hperm.mem_iff.1 (List.mem_append_right before List.mem_cons_self)
  have hmem : a.id ∈ m := NodeMap.mem_of_getElem?_eq_some (hadd a ha)
  have hpair := pairwise_of_replayOrder h (P := fun _ => True)
    fun r hr n hn _ => hr.follows_of_getElem? hadd hn
  rw [hl, List.pairwise_append, List.pairwise_cons] at hpair
  rcases List.mem_append.1 (hperm.mem_iff.2 ha) with hbefore | hafter
  · exact hbefore
  · rcases List.mem_cons.1 hafter with rfl | hafter
    · obtain ⟨r, hr, -⟩ := exists_of_replayOrder_eq_ok h
      have hdepth := ((Ranking.ranked_of_ofBatch hr).follows_of_getElem? hadd hn).depth_eq hp
        (List.mem_map_of_mem hn) hmem
      omega
    · exact absurd hp ((hpair.2.1.1 a hafter).1 trivial hmem)

/-- **Children of one parent come in the order of their places**, in the order of records of the map. -/
theorem pairwise_index_of_replayOrder (hadd : ∀ n ∈ additions, m[n.id]? = some n)
    (h : replayOrder additions m = .ok l) :
    l.Pairwise fun a b => a.parent = b.parent → a.index ≤ b.index := by
  have hpair := pairwise_of_replayOrder h (P := fun _ => True)
    fun r hr n hn _ => hr.follows_of_getElem? hadd hn
  exact hpair.imp fun hab => hab.2 trivial trivial

end GraphDelta
