/-
**Looking things up in the graph of a workspace.**

What the operations on a graph do is said by what can be looked up afterwards.  A removal takes what
parents lead from to the removed object, along present objects.  Setting a property puts one record in
the place of another, or none for null.  Loading a snapshot files the last record of each object, and
the last value of each property unless it is null.

Main definitions:

* `Property.stored?`, `Property.outcome` — what a workspace keeps of a property, and what it would keep
  if it kept nulls.

Main results:

* `Workspace.State.mem_below` — **what a removal takes**;
* `Workspace.State.getElem?_properties_set`, `Workspace.State.value_eq` — setting and reading values;
* `Workspace.State.getElem?_properties_ofSnapshot` — **what a workspace keeps of a snapshot**;
* `mem_map_snd_toList`, `map_key_snd_toList`, `pairwise_map_snd_toList` — what a map lists;
* `PropertyMap.properties_beq` — maps that hold equal properties list equal properties.
-/
import GraphDelta.Proofs.Difference
import GraphDelta.Sink.Workspace

set_option autoImplicit false

namespace GraphDelta

variable {id top x y : Ident} {n : Node} {k : Property.Key} {p q : Property} {v w : Value}

/-! ### Null -/

namespace Value

theorem isNull_iff : v.isNull = true ↔ v = null := by
  constructor
  · intro h
    refine ext ?_
    rw [isNull] at h
    split at h
    · rename_i hv
      exact hv
    · exact absurd h Bool.false_ne_true
  · rintro rfl
    rfl

/-- Null equals nothing else. -/
theorem isNull_eq_of_beq (h : (v == w) = true) : v.isNull = w.isNull := by
  have hnull {a b : Value} (hab : (a == b) = true) (ha : a.isNull = true) : b.isNull = true := by
    rw [isNull_iff] at ha
    subst ha
    rw [beq_def] at hab
    rw [isNull]
    cases hb : b.json <;> rw [hb] at hab <;> first | rfl | exact absurd hab Bool.false_ne_true
  exact Bool.eq_iff_iff.2 ⟨hnull h, hnull (BEq.symm h)⟩

end Value

/-! ### Reading in ascending order -/

theorem mem_map_snd_toList {κ α : Type} [Ord κ] [Std.TransOrd κ] [Std.LawfulEqOrd κ]
    {m : Std.ExtTreeMap κ α} {key : α → κ} (hm : ∀ k a, m[k]? = some a → key a = k) {a : α} :
    a ∈ m.toList.map Prod.snd ↔ m[key a]? = some a := by
  rw [List.mem_map]
  constructor
  · rintro ⟨⟨k, a⟩, ha, rfl⟩
    have hk := Std.ExtTreeMap.mem_toList_iff_getElem?_eq_some.1 ha
    exact (hm k a hk).symm ▸ hk
  · intro ha
    exact ⟨(key a, a), Std.ExtTreeMap.mem_toList_iff_getElem?_eq_some.2 ha, rfl⟩

theorem map_key_snd_toList {κ α : Type} [Ord κ] [Std.TransOrd κ] [Std.LawfulEqOrd κ]
    {m : Std.ExtTreeMap κ α} {key : α → κ} (hm : ∀ k a, m[k]? = some a → key a = k) :
    (m.toList.map Prod.snd).map key = m.keys := by
  rw [← Std.ExtTreeMap.map_fst_toList_eq_keys, List.map_map]
  refine List.map_congr_left ?_
  rintro ⟨k, a⟩ ha
  exact hm k a (Std.ExtTreeMap.mem_toList_iff_getElem?_eq_some.1 ha)

theorem pairwise_map_snd_toList {κ α : Type} [Ord κ] [Std.TransOrd κ] [Std.LawfulEqOrd κ]
    {m : Std.ExtTreeMap κ α} {key : α → κ} (hm : ∀ k a, m[k]? = some a → key a = k) :
    (m.toList.map Prod.snd).Pairwise fun a b => compare (key a) (key b) = .lt := by
  have hkeys : ((m.toList.map Prod.snd).map key).Pairwise fun a b => compare a b = .lt := by
    rw [map_key_snd_toList hm]
    exact Std.ExtTreeMap.ordered_keys
  exact List.pairwise_map.1 hkeys

/-- Lists of entries with the same keys, entry by entry, hold equal things if equal keys do. -/
theorem map_snd_beq {α β : Type} [BEq β] {l l' : List (α × β)}
    (hkeys : l.map Prod.fst = l'.map Prod.fst)
    (h : ∀ a b b', (a, b) ∈ l → (a, b') ∈ l' → (b == b') = true) :
    (l.map Prod.snd == l'.map Prod.snd) = true := by
  induction l generalizing l' with
  | nil =>
      cases l' with
      | nil => rfl
      | cons e' l' => cases hkeys
  | cons e l ih =>
      cases l' with
      | nil => cases hkeys
      | cons e' l' =>
          obtain ⟨a, b⟩ := e
          obtain ⟨a', b'⟩ := e'
          rw [List.map_cons, List.map_cons, List.cons.injEq] at hkeys
          obtain ⟨rfl, hkeys⟩ := hkeys
          rw [List.map_cons, List.map_cons, List.cons_beq_cons, Bool.and_eq_true]
          refine ⟨h a b b' List.mem_cons_self List.mem_cons_self, ih hkeys ?_⟩
          intro c d d' hd hd'
          exact h c d d' (List.mem_cons_of_mem _ hd) (List.mem_cons_of_mem _ hd')

theorem PropertyMap.properties_beq {m m' : PropertyMap}
    (h : ∀ k : Property.Key, (m[k]? == m'[k]?) = true) : (m.properties == m'.properties) = true := by
  have hmap : m.map (fun _ _ => ()) = m'.map fun _ _ => () := by
    refine Std.ExtTreeMap.ext_getElem? fun k => ?_
    rw [Std.ExtTreeMap.getElem?_map, Std.ExtTreeMap.getElem?_map]
    have hk := h k
    cases hm : m[k]? <;> cases hm' : m'[k]? <;> rw [hm, hm'] at hk <;>
      first | rfl | exact absurd hk Bool.false_ne_true
  have hkeys : m.keys = m'.keys := by
    rw [← Std.ExtTreeMap.keys_map, hmap, Std.ExtTreeMap.keys_map]
  refine map_snd_beq ?_ ?_
  · rw [Std.ExtTreeMap.map_fst_toList_eq_keys, Std.ExtTreeMap.map_fst_toList_eq_keys, hkeys]
  · intro k p p' hp hp'
    have hk := h k
    rw [Std.ExtTreeMap.mem_toList_iff_getElem?_eq_some.1 hp,
      Std.ExtTreeMap.mem_toList_iff_getElem?_eq_some.1 hp'] at hk
    exact hk

/-- What a record comes to: its value after, at a point in time. -/
def Property.outcome (p : Property) : Property :=
  { owner := p.owner, name := p.name, type := p.type
    before := p.after, after := p.after, isEdit := false }

/-- What a workspace keeps of a property: what it comes to, unless that is null. -/
def Property.stored? (p : Property) : Option Property :=
  if p.after.isNull then none else some p.outcome

theorem Property.point_eq_outcome (p : Property) :
    point p.owner p.name p.type p.after = p.outcome := rfl

theorem Property.stored?_eq_ite (p : Property) :
    p.stored? = if p.after = .null then none else some p.outcome := by
  rw [stored?]
  simp only [Value.isNull_iff]

theorem Property.stored?_eq_some_iff :
    p.stored? = some q ↔ p.after.isNull = false ∧ q = p.outcome := by
  rw [stored?]
  split
  · rename_i hnull
    simp [hnull]
  · rename_i hnull
    rw [Bool.not_eq_true] at hnull
    rw [Option.some_inj, and_iff_right hnull, eq_comm]

theorem Property.stored?_beq (hkey : p.key = q.key) (hsame : p.sameValue q = true) :
    (p.stored? == q.stored?) = true := by
  rw [sameValue, Bool.and_eq_true, beq_iff_eq] at hsame
  obtain ⟨htype, hafter⟩ := hsame
  rw [key, key, Key.mk.injEq] at hkey
  rw [stored?, stored?, Value.isNull_eq_of_beq hafter]
  by_cases hnull : q.after.isNull = true
  · rw [if_pos hnull, if_pos hnull]
    rfl
  · rw [if_neg hnull, if_neg hnull]
    change (point p.owner p.name p.type p.after == point q.owner q.name q.type q.after) = true
    simp only [beq_def, point, hkey, htype, hafter, beq_self_eq_true, Bool.and_self]

namespace Workspace.State

variable {s : State}

/-! ### Removing -/

/-- Climbing over present objects leads to what parents lead to, if it is present itself. -/
theorem reaches_eq_true_iff {fuel : Nat} : s.reaches top fuel id = true ↔
    top ∈ s.nodes ∧ ∃ k < fuel, follow s.nodes.parent? k id = some top := by
  induction fuel generalizing id with
  | zero => simp [reaches]
  | succ fuel ih =>
      rw [reaches]
      cases hn : s.nodes[id]? with
      | none =>
          refine iff_of_false Bool.false_ne_true ?_
          rintro ⟨htop, k, -, hk⟩
          obtain ⟨n, hn'⟩ := NodeMap.mem_iff_exists.1 (NodeMap.mem_of_leads ⟨k, hk⟩ htop)
          rw [hn] at hn'
          cases hn'
      | some n =>
          have hmem : id ∈ s.nodes := NodeMap.mem_of_getElem?_eq_some hn
          have hparent : s.nodes.parent? id = n.parent := by rw [NodeMap.parent?, hn]; rfl
          simp only [Bool.or_eq_true, beq_iff_eq, Option.any_eq_true, ih]
          constructor
          · rintro (rfl | ⟨p, hp, htop, k, hk, hkp⟩)
            · exact ⟨hmem, 0, Nat.succ_pos fuel, rfl⟩
            · refine ⟨htop, k + 1, Nat.succ_lt_succ hk, ?_⟩
              rw [follow_succ, hparent, hp]
              exact hkp
          · rintro ⟨htop, k, hk, hkt⟩
            cases k with
            | zero => exact .inl (Option.some_inj.1 hkt)
            | succ k =>
                rw [follow_succ, hparent] at hkt
                obtain ⟨p, hp, hkp⟩ := Option.bind_eq_some_iff.1 hkt
                exact .inr ⟨p, hp, htop, k, Nat.lt_of_succ_lt_succ hk, hkp⟩

/-- **What a removal takes**: the present objects from which parents lead to the removed one. -/
theorem mem_below : id ∈ s.below top ↔ top ∈ s.nodes ∧ Leads s.nodes.parent? id top := by
  rw [below, Std.ExtTreeSet.mem_ofList, List.contains_iff_mem, List.mem_filter,
    Std.ExtTreeMap.mem_keys, isBelow, reaches_eq_true_iff]
  constructor
  · rintro ⟨-, htop, k, -, hk⟩
    exact ⟨htop, k, hk⟩
  · rintro ⟨htop, h⟩
    -- the bound cuts nothing off, as no chain has more steps than there are objects
    have hlt := h.exists_lt NodeMap.mem_keys_of_parent? (Std.ExtTreeMap.mem_keys.2 htop)
    rw [Std.ExtTreeMap.length_keys] at hlt
    exact ⟨NodeMap.mem_of_leads h htop, htop, hlt⟩

theorem getElem?_nodes_without {ids : Std.ExtTreeSet Ident} :
    (s.without ids).nodes[id]? = some n ↔ s.nodes[id]? = some n ∧ id ∉ ids := by
  rw [without, Std.ExtTreeMap.getElem?_filter', Option.filter_eq_some_iff, Bool.not_eq_true',
    Bool.eq_false_iff, ne_eq, Std.ExtTreeSet.contains_iff_mem]

theorem getElem?_properties_without {ids : Std.ExtTreeSet Ident} :
    (s.without ids).properties[k]? = some p ↔ s.properties[k]? = some p ∧ k.owner ∉ ids := by
  rw [without, Std.ExtTreeMap.getElem?_filter', Option.filter_eq_some_iff, Bool.not_eq_true',
    Bool.eq_false_iff, ne_eq, Std.ExtTreeSet.contains_iff_mem]

/-! ### Setting -/

@[simp] theorem nodes_set (owner : Ident) (name : String) (type : ValueType) (v : Value) :
    (s.set owner name type v).nodes = s.nodes := rfl

theorem getElem?_properties_set (p : Property) (k : Property.Key) :
    (s.set p.owner p.name p.type p.after).properties[k]? =
      if p.key = k then p.stored? else s.properties[k]? := by
  by_cases hk : p.key = k
  · subst hk
    rw [if_pos rfl, set, Property.stored?]
    by_cases hnull : p.after.isNull = true
    · simp only [hnull, if_true]
      exact Std.ExtTreeMap.getElem?_erase_self
    · simp only [if_neg hnull]
      exact Std.ExtTreeMap.getElem?_insert_self
  · have hne : ¬ compare p.key k = .eq := fun h => hk (Std.LawfulEqOrd.eq_of_compare h)
    rw [if_neg hk, set]
    by_cases hnull : p.after.isNull = true
    · simp only [hnull, if_true]
      exact Std.ExtTreeMap.getElem?_erase.trans (if_neg hne)
    · simp only [if_neg hnull]
      exact Std.ExtTreeMap.getElem?_insert.trans (if_neg hne)

theorem value_eq (h : s.properties[k]? = p.stored?) : s.value k = p.after := by
  rw [value, h, Property.stored?]
  by_cases hnull : p.after.isNull = true
  · rw [if_pos hnull]
    exact (Value.isNull_iff.1 hnull).symm
  · rw [if_neg hnull]
    rfl

/-! ### Loading -/

theorem nodes_foldl_set (ps : List Property) (s : State) :
    (ps.foldl (fun t p => t.set p.owner p.name p.type p.after) s).nodes = s.nodes := by
  induction ps generalizing s with
  | nil => rfl
  | cons p ps ih => rw [List.foldl_cons, ih, nodes_set]

@[simp] theorem nodes_ofSnapshot (s : Snapshot) : (ofSnapshot s).nodes = s.objects :=
  nodes_foldl_set s.properties ⟨s.objects, ∅⟩

/-- Setting properties one after the other keeps in step with filing them. -/
theorem getElem?_properties_foldl_set (ps : List Property) {m : PropertyMap}
    (hm : ∀ k : Property.Key, s.properties[k]? = m[k]?.bind Property.stored?) (k : Property.Key) :
    (ps.foldl (fun t p => t.set p.owner p.name p.type p.after) s).properties[k]? =
      (ps.foldl (fun (m : PropertyMap) p => m.insert p.key p) m)[k]?.bind Property.stored? := by
  induction ps generalizing s m with
  | nil => exact hm k
  | cons p ps ih =>
      refine ih ?_
      intro k
      rw [getElem?_properties_set, Std.ExtTreeMap.getElem?_insert, hm k]
      simp only [Std.LawfulEqOrd.compare_eq_iff_eq]
      split <;> rfl

/-- **What a workspace keeps of a snapshot**: the last value of each property, unless it is null. -/
theorem getElem?_properties_ofSnapshot (s : Snapshot) (k : Property.Key) :
    (ofSnapshot s).properties[k]? = (PropertyMap.ofList s.properties)[k]?.bind Property.stored? :=
  getElem?_properties_foldl_set s.properties (s := ⟨s.objects, ∅⟩) (fun k => by simp) k

end Workspace.State

end GraphDelta
