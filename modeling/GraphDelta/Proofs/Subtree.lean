/-
**Forests and subtrees.**

A map of objects has a forest exactly if no object is its own ancestor, and the subtree that a forest
lists for an object holds the object and everything that parents lead from to it.  The height to which
a subtree is listed cuts nothing off, as parents lead from one object to another in fewer steps than
there are objects.

Main definitions:

* `EndsAlike` — the same failure, or results that are related;
* `NodeMap.Before` — how siblings are ordered.

Main results:

* `exists_mapM_eq_ok_iff` — asking for every item of a list succeeds if every answer does;
* `exists_of_mapM_eq_error`, `exists_of_foldlM_eq_error` — where an error comes from;
* `EndsAlike.foldlM` — steps that go along with each other;
* `NodeMap.topOf_sound` — the climb to the top ends at the top or names an object on a cycle;
* `Forest.exists_ofMap_eq_ok_iff` — **a map has a forest exactly if it is acyclic**;
* `Forest.mem_roots_of_ofMap`, `Forest.mem_children`, `Forest.pairwise_children` — what the roots and the
  children of an object are, and how they are ordered;
* `Forest.mem_below` — **a subtree holds what parents lead from to its top**.
-/
import GraphDelta.Forest
import GraphDelta.Proofs.Climb

set_option autoImplicit false

namespace GraphDelta

/-! ### Lists of answers -/

section Answers

variable {α β ε : Type} {f : α → Except ε β} {l : List α} {ys : List β}

theorem mapM_cons_eq_ok_iff {x : α} :
    (x :: l).mapM f = .ok ys ↔ ∃ y zs, f x = .ok y ∧ l.mapM f = .ok zs ∧ ys = y :: zs := by
  rw [List.mapM_cons]
  cases f x <;> cases l.mapM f <;> simp [bind, Except.bind, pure, Except.pure, eq_comm]

theorem mem_of_mapM_eq_ok {y : β} (h : l.mapM f = .ok ys) : y ∈ ys ↔ ∃ x ∈ l, f x = .ok y := by
  induction l generalizing ys with
  | nil => cases h; simp
  | cons x l ih =>
      obtain ⟨z, zs, hz, hzs, rfl⟩ := mapM_cons_eq_ok_iff.1 h
      rw [List.mem_cons, ih hzs, List.exists_mem_cons_iff, hz, Except.ok.injEq, eq_comm]

theorem exists_mapM_eq_ok_iff : (∃ ys, l.mapM f = .ok ys) ↔ ∀ x ∈ l, ∃ y, f x = .ok y := by
  induction l with
  | nil => exact ⟨fun _ x hx => absurd hx List.not_mem_nil, fun _ => ⟨[], rfl⟩⟩
  | cons x l ih =>
      rw [List.forall_mem_cons, ← ih]
      constructor
      · rintro ⟨ys, hys⟩
        obtain ⟨y, zs, hy, hzs, -⟩ := mapM_cons_eq_ok_iff.1 hys
        exact ⟨⟨y, hy⟩, zs, hzs⟩
      · rintro ⟨⟨y, hy⟩, zs, hzs⟩
        exact ⟨y :: zs, mapM_cons_eq_ok_iff.2 ⟨y, zs, hy, hzs, rfl⟩⟩

theorem mapM_cons_eq_error_iff {x : α} {e : ε} : (x :: l).mapM f = .error e ↔
    f x = .error e ∨ ∃ y, f x = .ok y ∧ l.mapM f = .error e := by
  rw [List.mapM_cons]
  cases f x <;> cases l.mapM f <;> simp [bind, Except.bind, pure, Except.pure]

/-- The error of asking for every item is the answer to one of them. -/
theorem exists_of_mapM_eq_error {e : ε} (h : l.mapM f = .error e) : ∃ x ∈ l, f x = .error e := by
  induction l with
  | nil => cases h
  | cons x l ih =>
      rcases mapM_cons_eq_error_iff.1 h with hx | ⟨-, -, hl⟩
      · exact ⟨x, List.mem_cons_self, hx⟩
      · obtain ⟨a, ha, hae⟩ := ih hl
        exact ⟨a, List.mem_cons_of_mem x ha, hae⟩

/-- The error of a run over a list is the answer to one of its steps. -/
theorem exists_of_foldlM_eq_error {g : β → α → Except ε β} {b : β} {e : ε}
    (h : l.foldlM g b = .error e) : ∃ x ∈ l, ∃ c, g c x = .error e := by
  induction l generalizing b with
  | nil => cases h
  | cons x l ih =>
      rw [List.foldlM_cons] at h
      cases hx : g b x with
      | error e' =>
          rw [hx] at h
          cases h
          exact ⟨x, List.mem_cons_self, b, hx⟩
      | ok c =>
          rw [hx] at h
          obtain ⟨a, ha, hae⟩ := ih h
          exact ⟨a, List.mem_cons_of_mem x ha, hae⟩

end Answers

/-! ### Ending alike -/

/-- The same failure, or results that are related. -/
inductive EndsAlike {α β : Type} (R : α → β → Prop) : Except Fault α → Except Fault β → Prop
  | ok {a : α} {b : β} : R a b → EndsAlike R (.ok a) (.ok b)
  | error (e : Fault) : EndsAlike R (.error e) (.error e)

namespace EndsAlike

variable {α β γ δ ι : Type} {R : α → β → Prop} {x : Except Fault α} {y : Except Fault β}

theorem imp {Q : α → β → Prop} (h : EndsAlike R x y) (hQ : ∀ a b, R a b → Q a b) :
    EndsAlike Q x y := by
  cases h with
  | ok h => exact .ok (hQ _ _ h)
  | error e => exact .error e

theorem bind {Q : γ → δ → Prop} {f : α → Except Fault γ} {g : β → Except Fault δ}
    (h : EndsAlike R x y) (hstep : ∀ a b, R a b → EndsAlike Q (f a) (g b)) :
    EndsAlike Q (x >>= f) (y >>= g) := by
  cases h with
  | ok h => exact hstep _ _ h
  | error e => exact .error e

theorem exists_ok {b : β} (h : EndsAlike R x (.ok b)) : ∃ a, x = .ok a ∧ R a b := by
  cases h with
  | ok h => exact ⟨_, rfl, h⟩

theorem eq_error {e : Fault} (h : EndsAlike R x (.error e)) : x = .error e := by
  cases h with
  | error e => rfl

/-- Steps that go along with each other: what relates the states may depend on the items so far. -/
theorem foldlM {R : List ι → α → β → Prop} {f : α → ι → Except Fault α} {g : β → ι → Except Fault β}
    (hstep : ∀ seen i a b, R seen a b → EndsAlike (R (seen ++ [i])) (f a i) (g b i))
    (l seen : List ι) {a : α} {b : β} (h : R seen a b) :
    EndsAlike (R (seen ++ l)) (l.foldlM f a) (l.foldlM g b) := by
  induction l generalizing seen a b with
  | nil => exact .ok ((List.append_nil seen).symm ▸ h)
  | cons i l ih =>
      rw [List.foldlM_cons, List.foldlM_cons, List.append_cons]
      exact (hstep seen i a b h).bind fun _ _ => ih (seen ++ [i])

end EndsAlike

variable {m : NodeMap} {x y : Ident} {k : Nat}

namespace NodeMap

/-! ### Present parents -/

theorem presentParent?_eq_some_iff : m.presentParent? x = some y ↔ m.parent? x = some y ∧ y ∈ m := by
  rw [presentParent?, Option.filter_eq_some_iff, Std.ExtTreeMap.mem_iff_contains]

theorem mem_of_presentParent? (h : m.presentParent? x = some y) : x ∈ m :=
  mem_of_parent? (presentParent?_eq_some_iff.1 h).1

/-- A chain of parents that comes to an object leads over objects only. -/
theorem follow_presentParent? (h : follow m.parent? k x = some y) (hy : y ∈ m) :
    follow m.presentParent? k x = some y := by
  induction k generalizing x with
  | zero => exact h
  | succ k ih =>
      obtain ⟨a, ha, hay⟩ := Option.bind_eq_some_iff.1 h
      have ham : a ∈ m := mem_of_leads ⟨k, hay⟩ hy
      rw [follow_succ, presentParent?_eq_some_iff.2 ⟨ha, ham⟩]
      exact ih hay

/-- What parents lead from to an object is an object, and so is all that is between. -/
theorem leads_parent?_iff (hy : y ∈ m) :
    Leads m.parent? x y ↔ x ∈ m ∧ Leads m.presentParent? x y := by
  constructor
  · rintro ⟨k, hk⟩
    exact ⟨mem_of_leads ⟨k, hk⟩ hy, k, follow_presentParent? hk hy⟩
  · exact fun h => h.2.mono fun a b hab => (presentParent?_eq_some_iff.1 hab).1

theorem circular_presentParent?_iff : Circular m.presentParent? x ↔ Circular m.parent? x := by
  constructor
  · exact Circular.mono fun a b h => (presentParent?_eq_some_iff.1 h).1
  · intro h
    obtain ⟨k, hk⟩ := h
    exact ⟨k, follow_presentParent? hk (mem_of_leadsOn ⟨k, hk⟩)⟩

theorem mem_of_leads_presentParent? (h : Leads m.presentParent? x y) (hx : x ∈ m) : y ∈ m := by
  obtain ⟨k, hk⟩ := h
  cases k with
  | zero =>
      cases hk
      exact hx
  | succ k =>
      rw [follow_succ_right] at hk
      obtain ⟨a, -, ha⟩ := Option.bind_eq_some_iff.1 hk
      exact (presentParent?_eq_some_iff.1 ha).2

/-- The climb to the top ends at the top, or names an object on a cycle. -/
theorem topOf_sound (m : NodeMap) (x : Ident) :
    match m.topOf x with
    | .ok t => Leads m.presentParent? x t ∧ m.presentParent? t = none
    | .error e => ∃ z, e = .cycle z ∧ Leads m.presentParent? x z ∧ Circular m.presentParent? z := by
  have hkeys (a b : Ident) (hab : m.presentParent? a = some b) : a = x ∨ a ∈ m :=
    .inr (mem_of_presentParent? hab)
  have hsound : (m.climb m.presentParent? (fun _ => false) .empty x).Sound m.presentParent?
      (fun _ => false) x 0 := climb_empty_sound hkeys
  rw [topOf]
  cases hc : m.climb m.presentParent? (fun _ => false) .empty x with
  | top path =>
      rw [hc] at hsound
      obtain ⟨z, rest, rfl, hclimbed, hz, -⟩ := hsound
      exact ⟨hclimbed.leads, hz⟩
  | stopped z path =>
      rw [hc] at hsound
      exact absurd hsound.2.2.1 Bool.false_ne_true
  | looped z =>
      rw [hc] at hsound
      obtain ⟨⟨k, -, hk⟩, hz, -⟩ := hsound.of_looped (Nat.zero_le 1)
      exact ⟨z, rfl, ⟨k, hk⟩, hz⟩

theorem leads_of_topOf (h : m.topOf x = .ok y) :
    Leads m.presentParent? x y ∧ m.presentParent? y = none := by
  have hsound := m.topOf_sound x
  rwa [h] at hsound

theorem ends_of_topOf (h : m.topOf x = .ok y) : Ends m.presentParent? x := by
  obtain ⟨hxy, hy⟩ := leads_of_topOf h
  exact .of_leads hxy (.of_eq_none hy)

theorem exists_topOf_eq_ok (h : Ends m.presentParent? x) : ∃ t, m.topOf x = .ok t := by
  have hsound := m.topOf_sound x
  cases ht : m.topOf x with
  | ok t => exact ⟨t, rfl⟩
  | error e =>
      rw [ht] at hsound
      obtain ⟨z, -, hxz, hz⟩ := hsound
      exact absurd (h.leads hxz) hz.not_ends

/-! ### Siblings -/

/-- One object comes before another of the same parent: by place, and then by identifier. -/
def Before (m : NodeMap) (a b : Ident) : Prop :=
  ∃ p q : Node, m[a]? = some p ∧ m[b]? = some q ∧
    (p.index < q.index ∨ p.index = q.index ∧ compare a b = .lt)

theorem Before.ne {a b : Ident} (h : m.Before a b) : a ≠ b := by
  rintro rfl
  obtain ⟨p, q, hp, hq, hlt | ⟨-, hlt⟩⟩ := h
  · rw [hp, Option.some_inj] at hq
    exact Int32.lt_irrefl (hq ▸ hlt)
  · rw [Std.ReflOrd.compare_self] at hlt
    cases hlt

end NodeMap

namespace Forest

/-! ### The forest of a map -/

theorem ofMap_eq (m : NodeMap) :
    ofMap m = (m.keys.mapM m.topOf).map fun tops => { nodes := m, roots := distinct tops } := by
  rw [ofMap]
  cases m.keys.mapM m.topOf <;> rfl

theorem ofMap_eq_ok_iff {f : Forest} : ofMap m = .ok f ↔
    ∃ tops, m.keys.mapM m.topOf = .ok tops ∧ { nodes := m, roots := distinct tops } = f := by
  rw [ofMap_eq]
  cases m.keys.mapM m.topOf <;> simp [Except.map]

theorem nodes_of_ofMap {f : Forest} (h : ofMap m = .ok f) : f.nodes = m := by
  obtain ⟨tops, -, rfl⟩ := ofMap_eq_ok_iff.1 h
  rfl

/-- A map without a forest has a cycle, through the object that is named. -/
theorem circular_of_ofMap_eq_error {e : Fault} (h : ofMap m = .error e) :
    ∃ z, e = .cycle z ∧ Circular m.parent? z := by
  rw [ofMap_eq] at h
  cases ht : m.keys.mapM m.topOf with
  | ok tops => rw [ht] at h; cases h
  | error e' =>
      rw [ht] at h
      cases h
      obtain ⟨x, -, hx⟩ := exists_of_mapM_eq_error ht
      have hsound := m.topOf_sound x
      rw [hx] at hsound
      obtain ⟨z, rfl, -, hz⟩ := hsound
      exact ⟨z, rfl, NodeMap.circular_presentParent?_iff.1 hz⟩

/-- **A map has a forest exactly if it is acyclic.** -/
theorem exists_ofMap_eq_ok_iff : (∃ f, ofMap m = .ok f) ↔ m.Acyclic := by
  constructor
  · rintro ⟨f, hf⟩ z hz
    obtain ⟨tops, htops, -⟩ := ofMap_eq_ok_iff.1 hf
    have hmem : z ∈ m.keys := Std.ExtTreeMap.mem_keys.2 (NodeMap.mem_of_leadsOn hz)
    obtain ⟨t, htop⟩ := exists_mapM_eq_ok_iff.1 ⟨tops, htops⟩ z hmem
    exact (NodeMap.circular_presentParent?_iff.2 hz).not_ends (NodeMap.ends_of_topOf htop)
  · intro hm
    cases hf : ofMap m with
    | ok f => exact ⟨f, rfl⟩
    | error e =>
        obtain ⟨z, -, hz⟩ := circular_of_ofMap_eq_error hf
        exact absurd hz (hm z)

theorem mem_roots_of_ofMap {f : Forest} (h : ofMap m = .ok f) :
    x ∈ f.roots ↔ x ∈ m ∧ m.presentParent? x = none := by
  obtain ⟨tops, htops, rfl⟩ := ofMap_eq_ok_iff.1 h
  rw [mem_distinct, mem_of_mapM_eq_ok htops]
  constructor
  · rintro ⟨y, hy, hyx⟩
    obtain ⟨hleads, hx⟩ := NodeMap.leads_of_topOf hyx
    exact ⟨NodeMap.mem_of_leads_presentParent? hleads (Std.ExtTreeMap.mem_keys.1 hy), hx⟩
  · rintro ⟨hxm, hx⟩
    obtain ⟨t, htop⟩ := NodeMap.exists_topOf_eq_ok (.of_eq_none hx)
    refine ⟨x, Std.ExtTreeMap.mem_keys.2 hxm, ?_⟩
    rcases leads_iff.1 (NodeMap.leads_of_topOf htop).1 with rfl | hon
    · exact htop
    · obtain ⟨z, hz, -⟩ := leadsOn_iff.1 hon
      rw [hx] at hz
      cases hz

theorem nodup_roots_of_ofMap {f : Forest} (h : ofMap m = .ok f) : f.roots.Nodup := by
  obtain ⟨tops, -, rfl⟩ := ofMap_eq_ok_iff.1 h
  exact nodup_distinct tops

/-! ### Children -/

variable {f : Forest}

theorem mem_children : y ∈ f.children x ↔ x ∈ f.nodes ∧ f.nodes.parent? y = some x := by
  rw [children_eq]
  split
  · rename_i hx
    rw [NodeMap.parent?_eq_some_iff]
    simp only [List.mem_map, mem_stableSort, List.mem_filter, Prod.exists, Node.isChildOf,
      Std.ExtTreeMap.mem_toList_iff_getElem?_eq_some, beq_iff_eq]
    constructor
    · rintro ⟨a, n, ⟨hn, hp⟩, rfl⟩
      exact ⟨Std.ExtTreeMap.mem_iff_contains.2 hx, n, hn, hp⟩
    · rintro ⟨-, n, hn, hp⟩
      exact ⟨y, n, ⟨hn, hp⟩, rfl⟩
  · rename_i hx
    have hx : x ∉ f.nodes := fun h => hx (Std.ExtTreeMap.mem_iff_contains.1 h)
    simp [hx]

theorem pairwise_children (f : Forest) (x : Ident) : (f.children x).Pairwise f.nodes.Before := by
  rw [children_eq]
  split
  · rw [List.pairwise_map]
    have hids : (f.nodes.toList.filter fun a => a.2.isChildOf x).Pairwise fun a b =>
        compare a.1 b.1 = .lt := Std.ExtTreeMap.ordered_keys_toList.filter _
    have hsorted : (stableSort NodeMap.mayPrecede
        (f.nodes.toList.filter fun a => a.2.isChildOf x)).Pairwise fun a b =>
        a.2.index < b.2.index ∨ a.2.index = b.2.index ∧ compare a.1 b.1 = .lt :=
      pairwise_stableSort_place hids
    have hget {a : Ident × Node} (ha : a ∈ stableSort NodeMap.mayPrecede
        (f.nodes.toList.filter fun a => a.2.isChildOf x)) : f.nodes[a.1]? = some a.2 :=
      Std.ExtTreeMap.mem_toList_iff_getElem?_eq_some.1 (List.mem_of_mem_filter (mem_stableSort.1 ha))
    refine hsorted.imp_of_mem ?_
    intro a b ha hb hab
    exact ⟨a.2, b.2, hget ha, hget hb, hab⟩
  · exact .nil

theorem nodup_children (f : Forest) (x : Ident) : (f.children x).Nodup :=
  (pairwise_children f x).imp NodeMap.Before.ne

/-! ### Subtrees -/

/-- Below an object, to a given height, is what parents lead from to it in fewer steps. -/
theorem mem_preorder {height : Nat} (hx : x ∈ f.nodes) :
    y ∈ f.preorder height x ↔ ∃ k < height, follow f.nodes.parent? k y = some x := by
  induction height generalizing x with
  | zero => simp [preorder_zero]
  | succ height ih =>
      rw [preorder_succ, List.mem_cons, List.mem_flatMap]
      constructor
      · rintro (rfl | ⟨c, hc, hy⟩)
        · exact ⟨0, Nat.succ_pos height, rfl⟩
        · obtain ⟨-, hcx⟩ := mem_children.1 hc
          have hcm := NodeMap.mem_of_parent? hcx
          obtain ⟨k, hk, hky⟩ := (ih hcm).1 hy
          exact ⟨k + 1, Nat.succ_lt_succ hk, by rw [follow_succ_right, hky]; exact hcx⟩
      · rintro ⟨k, hk, hky⟩
        cases k with
        | zero => exact .inl (Option.some_inj.1 hky)
        | succ k =>
            rw [follow_succ_right] at hky
            obtain ⟨c, hc, hcx⟩ := Option.bind_eq_some_iff.1 hky
            have hcm := NodeMap.mem_of_parent? hcx
            exact .inr ⟨c, mem_children.2 ⟨hx, hcx⟩, (ih hcm).2 ⟨k, Nat.lt_of_succ_lt_succ hk, hc⟩⟩

/-- **A subtree holds what parents lead from to its top.** -/
theorem mem_below (hx : x ∈ f.nodes) : y ∈ f.below x ↔ Leads f.nodes.parent? y x := by
  rw [below, mem_preorder hx]
  constructor
  · rintro ⟨k, -, hk⟩
    exact ⟨k, hk⟩
  · intro h
    rw [← Std.ExtTreeMap.length_keys]
    exact h.exists_lt NodeMap.mem_keys_of_parent? (Std.ExtTreeMap.mem_keys.2 hx)

end Forest

end GraphDelta
