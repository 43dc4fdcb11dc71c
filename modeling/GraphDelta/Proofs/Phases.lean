/-
**The phases of a replay.**

A replay removes objects, then adds objects, then sets properties.  Each phase is a run of calls of one
kind, and for each kind there is a condition under which a run goes through, and a description of what
an accepted run has done, by what can be looked up before and after.

Main definitions:

* `Node.stored` — what a workspace keeps of an object;
* `Transaction.Loses` — some objects have gone, with their properties and marks;
* `Transaction.Gains` — some objects have come, with marks;
* `Transaction.Exchanges` — some objects have gone, and then some have come;
* `Transaction.Edits` — some properties have been set;
* `Transaction.Ready` — an edit would go through.

Main results:

* `Transaction.loses_of_run`, `Transaction.exists_run_removals` — **a run of removals takes what leads
  to a removed object**, and goes through if none of them takes a later one;
* `Transaction.gains_of_run`, `Transaction.exists_run_additions` — a run of additions adds its objects,
  and goes through if they are new;
* `Transaction.exchanges_of_run` — what a run of removals and then additions does;
* `Transaction.edits_of_run`, `Transaction.exists_run_edits_iff` — a run of edits sets its properties,
  and goes through exactly if each of them would go through at the start.
-/
import GraphDelta.Proofs.State
import GraphDelta.Proofs.Transaction

set_option autoImplicit false

namespace GraphDelta

variable {id x y : Ident} {n : Node} {k : Property.Key} {p : Property} {mode : Replay.Mode}

/-- What a workspace keeps of an object: an empty parent stands for none. -/
def Node.stored (n : Node) : Node :=
  { parent := n.parent.filter (!·.isEmpty), typeTag := n.typeTag, id := n.id, index := n.index }

theorem Node.make_eq_stored (n : Node) : make n.parent n.typeTag n.id n.index = n.stored :=
  make_eq n.parent n.typeTag n.id n.index

theorem Node.stored_eq_self (h : ∀ p, n.parent = some p → p.isEmpty = false) : n.stored = n := by
  have hparent : n.parent.filter (!·.isEmpty) = n.parent := by
    cases hp : n.parent with
    | none => rfl
    | some p => simp [Option.filter, h p hp]
  rw [stored, hparent]

namespace Workspace.Transaction

variable {t t' t'' : Transaction} {gone gone' gone'' : Ident → Prop}

/-! ### Removals -/

/-- Some objects have gone, with their properties and marks; the rest is what it was. -/
structure Loses (gone : Ident → Prop) (t t' : Transaction) : Prop where
  nodes : ∀ (id : Ident) (n : Node),
    t'.state.nodes[id]? = some n ↔ t.state.nodes[id]? = some n ∧ ¬ gone id
  properties : ∀ (k : Property.Key) (p : Property),
    t'.state.properties[k]? = some p ↔ t.state.properties[k]? = some p ∧ ¬ gone k.owner
  created : ∀ id : Ident, id ∈ t'.created ↔ id ∈ t.created ∧ ¬ gone id

theorem Loses.refl (h : ∀ x, ¬ gone x) (t : Transaction) : Loses gone t t where
  nodes id _ := (and_iff_left (h id)).symm
  properties k _ := (and_iff_left (h k.owner)).symm
  created id := (and_iff_left (h id)).symm

theorem Loses.congr (h : Loses gone t t') (hgone : ∀ x, gone x ↔ gone' x) : Loses gone' t t' where
  nodes id n := by rw [h.nodes, hgone]
  properties k p := by rw [h.properties, hgone]
  created id := by rw [h.created, hgone]

theorem Loses.trans (h : Loses gone t t') (h' : Loses gone' t' t'')
    (hgone : ∀ x, gone'' x ↔ gone x ∨ gone' x) : Loses gone'' t t'' where
  nodes id n := by rw [h'.nodes, h.nodes, hgone, not_or, and_assoc]
  properties k p := by rw [h'.properties, h.properties, hgone, not_or, and_assoc]
  created id := by rw [h'.created, h.created, hgone, not_or, and_assoc]

theorem Loses.parent? (h : Loses gone t t') :
    t'.state.nodes.parent? x = some y ↔ t.state.nodes.parent? x = some y ∧ ¬ gone x := by
  simp only [NodeMap.parent?_eq_some_iff, h.nodes]
  constructor
  · rintro ⟨n, ⟨hn, hx⟩, hy⟩
    exact ⟨⟨n, hn, hy⟩, hx⟩
  · rintro ⟨⟨n, hn, hy⟩, hx⟩
    exact ⟨n, ⟨hn, hx⟩, hy⟩

/-- Where everything below a gone object is gone, the chains of the others are what they were. -/
theorem Loses.leads_iff (h : Loses gone t t')
    (hgone : ∀ x y, t.state.nodes.parent? x = some y → gone y → gone x) (hx : ¬ gone x) :
    Leads t'.state.nodes.parent? x y ↔ Leads t.state.nodes.parent? x y := by
  constructor
  · exact Leads.mono fun a b hab => (h.parent?.1 hab).1
  · rintro ⟨k, hk⟩
    refine ⟨k, ?_⟩
    induction k generalizing x with
    | zero => exact hk
    | succ k ih =>
        obtain ⟨a, ha, hay⟩ := Option.bind_eq_some_iff.1 hk
        rw [follow_succ, h.parent?.2 ⟨ha, hx⟩]
        exact ih (fun hga => hx (hgone x a ha hga)) hay

theorem remove_eq_ok_iff {parent : Option Ident} :
    t.remove parent id = (.ok (), t') ↔ ∃ n, t.state.nodes[id]? = some n ∧ n.parent = parent ∧
      t' = { state := t.state.without (t.state.below id)
             created := t.created.filter (!(t.state.below id).contains ·) } := by
  rw [remove]
  cases t.state.nodes[id]? with
  | none => simp
  | some n =>
      simp only [Option.some.injEq, exists_eq_left']
      split
      · rename_i hp
        simp only [Prod.mk.injEq, hp, true_and, eq_comm]
      · rename_i hp
        simp [hp]

theorem loses_of_remove {parent : Option Ident} (h : t.remove parent id = (.ok (), t')) :
    Loses (fun x => Leads t.state.nodes.parent? x id) t t' := by
  obtain ⟨n, hn, -, rfl⟩ := remove_eq_ok_iff.1 h
  have hbelow (x : Ident) : x ∈ t.state.below id ↔ Leads t.state.nodes.parent? x id := by
    rw [State.mem_below]
    exact and_iff_right (NodeMap.mem_of_getElem?_eq_some hn)
  constructor
  · intro x n
    rw [State.getElem?_nodes_without, hbelow]
  · intro k p
    rw [State.getElem?_properties_without, hbelow]
  · intro x
    simp only [Std.ExtTreeSet.mem_filter, Std.ExtTreeSet.get_eq, ← hbelow, Bool.not_eq_true',
      Bool.eq_false_iff, ne_eq, Std.ExtTreeSet.contains_iff_mem, exists_prop]

/-- **A run of removals takes what parents lead from to a removed object.** -/
theorem loses_of_run {rs : List Node} (h : t.run (rs.map Node.removal) = (.ok (), t')) :
    Loses (fun x => ∃ r ∈ rs, Leads t.state.nodes.parent? x r.id) t t' := by
  induction rs generalizing t with
  | nil =>
      cases h
      refine .refl ?_ _
      rintro x ⟨r, hr, -⟩
      exact absurd hr List.not_mem_nil
  | cons r rs ih =>
      rw [List.map_cons, run_cons_eq_ok_iff] at h
      obtain ⟨t₁, ht₁, ht'⟩ := h
      have hfirst : Loses (fun x => Leads t.state.nodes.parent? x r.id) t t₁ := loses_of_remove ht₁
      refine hfirst.trans (ih ht') ?_
      intro x
      rw [List.exists_mem_cons_iff]
      by_cases hx : Leads t.state.nodes.parent? x r.id
      · exact iff_of_true (.inl hx) (.inl hx)
      · -- what the first removal leaves has the chains that it had before
        have hsame (y : Ident) : Leads t₁.state.nodes.parent? x y ↔
            Leads t.state.nodes.parent? x y :=
          hfirst.leads_iff (fun a b hab hb => (leadsOn_iff.2 ⟨b, hab, hb⟩).leads) hx
        simp only [hsame]

/-- Every object that a run of removals removes was there, under the parent that is named. -/
theorem present_of_run {rs : List Node} (h : t.run (rs.map Node.removal) = (.ok (), t')) {r : Node}
    (hr : r ∈ rs) : ∃ n, t.state.nodes[r.id]? = some n ∧ n.parent = r.parent := by
  induction rs generalizing t with
  | nil => exact absurd hr List.not_mem_nil
  | cons a rs ih =>
      rw [List.map_cons, run_cons_eq_ok_iff] at h
      obtain ⟨t₁, ht₁, ht'⟩ := h
      rcases List.mem_cons.1 hr with rfl | hr
      · obtain ⟨n, hn, hp, -⟩ := remove_eq_ok_iff.1 ht₁
        exact ⟨n, hn, hp⟩
      · -- what is there after the first removal was there before it
        obtain ⟨n, hn, hp⟩ := ih ht' hr
        exact ⟨n, (((loses_of_remove ht₁).nodes r.id n).1 hn).1, hp⟩

/-- A run of removals goes through if the records are present and none takes a later one. -/
theorem exists_run_removals {rs : List Node} (hrec : ∀ r ∈ rs, t.state.nodes[r.id]? = some r)
    (hpair : rs.Pairwise fun r r' => ¬ Leads t.state.nodes.parent? r'.id r.id) :
    ∃ t', t.run (rs.map Node.removal) = (.ok (), t') := by
  induction rs generalizing t with
  | nil => exact ⟨t, rfl⟩
  | cons r rs ih =>
      rw [List.forall_mem_cons] at hrec
      rw [List.pairwise_cons] at hpair
      obtain ⟨t₁, ht₁⟩ : ∃ t₁, t.remove r.parent r.id = (.ok (), t₁) :=
        ⟨_, remove_eq_ok_iff.2 ⟨r, hrec.1, rfl, rfl⟩⟩
      have hfirst := loses_of_remove ht₁
      obtain ⟨t', ht'⟩ : ∃ t', t₁.run (rs.map Node.removal) = (.ok (), t') := by
        refine ih ?_ (hpair.2.imp fun hno h => hno (h.mono fun a b hab => (hfirst.parent?.1 hab).1))
        intro r' hr'
        exact (hfirst.nodes r'.id r').2 ⟨hrec.2 r' hr', hpair.1 r' hr'⟩
      exact ⟨t', run_cons_eq_ok_iff.2 ⟨t₁, ht₁, ht'⟩⟩

/-! ### Additions -/

/-- Some objects have come, with marks; the properties are what they were. -/
structure Gains (ns : List Node) (t t' : Transaction) : Prop where
  nodes : ∀ (id : Ident) (n : Node),
    t'.state.nodes[id]? = some n ↔ t.state.nodes[id]? = some n ∨ n ∈ ns ∧ n.id = id
  properties : t'.state.properties = t.state.properties
  created : ∀ id : Ident, id ∈ t'.created ↔ id ∈ t.created ∨ ∃ n ∈ ns, n.id = id

theorem Gains.refl (t : Transaction) : Gains [] t t where
  nodes id n := by simp
  properties := rfl
  created id := by simp

theorem Gains.cons {ns : List Node} (h : Gains [n] t t') (h' : Gains ns t' t'') :
    Gains (n :: ns) t t'' where
  nodes id m := by
    rw [h'.nodes, h.nodes, or_assoc, ← or_and_right, List.mem_singleton, List.mem_cons]
  properties := h'.properties.trans h.properties
  created id := by
    rw [h'.created, h.created, or_assoc, List.exists_mem_cons_iff, List.exists_mem_cons_iff]
    simp only [List.not_mem_nil, false_and, exists_false, or_false]

theorem add_eq_ok_iff : t.add n = (.ok (), t') ↔ n.id ∉ t.state.nodes ∧
    t' = { state := { t.state with nodes := t.state.nodes.insert n.id n }
           created := t.created.insert n.id } := by
  rw [add, Std.ExtTreeMap.mem_iff_contains]
  split
  · rename_i h
    simp [h]
  · rename_i h
    rw [and_iff_right h, Prod.mk.injEq, and_iff_right rfl, eq_comm]

theorem gains_of_add (h : t.add n = (.ok (), t')) : Gains [n] t t' := by
  obtain ⟨hfree, rfl⟩ := add_eq_ok_iff.1 h
  constructor
  · intro id m
    rw [Std.ExtTreeMap.getElem?_insert]
    by_cases hid : n.id = id
    · subst hid
      rw [if_pos Std.ReflOrd.compare_self, List.mem_singleton, Option.some_inj]
      constructor
      · rintro rfl
        exact .inr ⟨rfl, rfl⟩
      · rintro (hm | ⟨rfl, -⟩)
        · exact absurd (NodeMap.mem_of_getElem?_eq_some hm) hfree
        · rfl
    · rw [if_neg fun hc => hid (Std.LawfulEqOrd.eq_of_compare hc), List.mem_singleton, or_iff_left]
      rintro ⟨rfl, hm⟩
      exact hid hm
  · rfl
  · intro id
    rw [Std.ExtTreeSet.mem_insert, Std.LawfulEqOrd.compare_eq_iff_eq, or_comm]
    simp only [List.mem_singleton, exists_eq_left]

theorem apply_addition (n : Node) (t : Transaction) : t.apply n.addition = t.add n.stored := by
  rw [← n.make_eq_stored]
  rfl

theorem gains_of_addition (h : t.apply n.addition = (.ok (), t')) : Gains [n.stored] t t' :=
  gains_of_add (t.apply_addition n ▸ h)

theorem gains_of_run {ns : List Node} (h : t.run (ns.map Node.addition) = (.ok (), t')) :
    Gains (ns.map Node.stored) t t' := by
  induction ns generalizing t with
  | nil =>
      cases h
      exact .refl _
  | cons n ns ih =>
      rw [List.map_cons, run_cons_eq_ok_iff] at h
      obtain ⟨t₁, ht₁, ht'⟩ := h
      exact (gains_of_addition ht₁).cons (ih ht')

theorem free_of_run {ns : List Node} (h : t.run (ns.map Node.addition) = (.ok (), t')) (hn : n ∈ ns) :
    n.id ∉ t.state.nodes := by
  induction ns generalizing t with
  | nil => exact absurd hn List.not_mem_nil
  | cons a ns ih =>
      rw [List.map_cons, run_cons_eq_ok_iff] at h
      obtain ⟨t₁, ht₁, ht'⟩ := h
      rcases List.mem_cons.1 hn with rfl | hn
      · rw [apply_addition] at ht₁
        exact (add_eq_ok_iff.1 ht₁).1
      · -- what was there before the first addition is still there after it
        intro hmem
        obtain ⟨m, hm⟩ := NodeMap.mem_iff_exists.1 hmem
        exact ih ht' hn (NodeMap.mem_of_getElem?_eq_some
          (((gains_of_addition ht₁).nodes n.id m).2 (.inl hm)))

/-- A run of additions goes through if the objects are new and differ. -/
theorem exists_run_additions {ns : List Node} (hnodup : (ns.map Node.id).Nodup)
    (hfree : ∀ n ∈ ns, n.id ∉ t.state.nodes) :
    ∃ t', t.run (ns.map Node.addition) = (.ok (), t') := by
  induction ns generalizing t with
  | nil => exact ⟨t, rfl⟩
  | cons n ns ih =>
      rw [List.forall_mem_cons] at hfree
      rw [List.map_cons, List.nodup_cons] at hnodup
      obtain ⟨t₁, ht₁⟩ : ∃ t₁, t.apply n.addition = (.ok (), t₁) :=
        ⟨_, (t.apply_addition n).trans (add_eq_ok_iff.2 ⟨hfree.1, rfl⟩)⟩
      obtain ⟨t', ht'⟩ : ∃ t', t₁.run (ns.map Node.addition) = (.ok (), t') := by
        refine ih hnodup.2 ?_
        intro a ha hmem
        obtain ⟨m, hm⟩ := NodeMap.mem_iff_exists.1 hmem
        rcases ((gains_of_addition ht₁).nodes a.id m).1 hm with hm | ⟨hmn, hid⟩
        · exact hfree.2 a ha (NodeMap.mem_of_getElem?_eq_some hm)
        · cases List.mem_singleton.1 hmn
          exact hnodup.1 (List.mem_map.2 ⟨a, ha, hid.symm⟩)
      exact ⟨t', run_cons_eq_ok_iff.2 ⟨t₁, ht₁, ht'⟩⟩

/-! ### Removals and additions -/

/-- Some objects have gone, with their properties and marks, and then some have come, with marks. -/
structure Exchanges (gone : Ident → Prop) (ns : List Node) (t t' : Transaction) : Prop where
  nodes : ∀ (id : Ident) (n : Node), t'.state.nodes[id]? = some n ↔
    (t.state.nodes[id]? = some n ∧ ¬ gone id) ∨ n ∈ ns ∧ n.id = id
  properties : ∀ (k : Property.Key) (p : Property),
    t'.state.properties[k]? = some p ↔ t.state.properties[k]? = some p ∧ ¬ gone k.owner
  created : ∀ id : Ident, id ∈ t'.created ↔ (id ∈ t.created ∧ ¬ gone id) ∨ ∃ n ∈ ns, n.id = id

theorem Loses.exchanges {ns : List Node} (h : Loses gone t t') (h' : Gains ns t' t'') :
    Exchanges gone ns t t'' where
  nodes id n := by rw [h'.nodes, h.nodes]
  properties k p := by rw [h'.properties, h.properties]
  created id := by rw [h'.created, h.created]

/-- What is there and has not been added was there before, and has not gone. -/
theorem Exchanges.mem_of_mem {ns : List Node} (h : Exchanges gone ns t t')
    (hns : ∀ n ∈ ns, n.id ≠ id) (hid : id ∈ t'.state.nodes) : id ∈ t.state.nodes ∧ ¬ gone id := by
  obtain ⟨m, hm⟩ := NodeMap.mem_iff_exists.1 hid
  rcases (h.nodes id m).1 hm with ⟨hm, hgone⟩ | ⟨hadded, hm⟩
  · exact ⟨NodeMap.mem_of_getElem?_eq_some hm, hgone⟩
  · exact absurd hm (hns m hadded)

theorem Exchanges.value_eq {ns : List Node} (h : Exchanges gone ns t t') (hk : ¬ gone k.owner) :
    t'.state.value k = t.state.value k := by
  have hproperty : t'.state.properties[k]? = t.state.properties[k]? :=
    Option.ext fun p => (h.properties k p).trans (and_iff_left hk)
  rw [State.value, State.value, hproperty]

/-- **A run of removals and then additions** takes what parents lead from to a removed object, and adds
its objects. -/
theorem exchanges_of_run {rs ns : List Node}
    (h : t.run (rs.map Node.removal ++ ns.map Node.addition) = (.ok (), t')) :
    Exchanges (fun x => ∃ r ∈ rs, Leads t.state.nodes.parent? x r.id) (ns.map Node.stored) t t' := by
  obtain ⟨t₁, ht₁, ht'⟩ := run_append_eq_ok_iff.1 h
  exact (loses_of_run ht₁).exchanges (gains_of_run ht')

/-! ### Edits -/

/-- Some properties have been set; the objects and the other properties are what they were. -/
structure Edits (ps : List Property) (t t' : Transaction) : Prop where
  nodes : t'.state.nodes = t.state.nodes
  created : t'.created = t.created
  set : ∀ p ∈ ps, t'.state.properties[p.key]? = p.stored?
  other : ∀ k : Property.Key, (∀ p ∈ ps, p.key ≠ k) →
    t'.state.properties[k]? = t.state.properties[k]?

theorem Edits.refl (t : Transaction) : Edits [] t t where
  nodes := rfl
  created := rfl
  set _ hp := absurd hp List.not_mem_nil
  other _ _ := rfl

theorem Edits.cons {ps : List Property} (h : Edits [p] t t') (h' : Edits ps t' t'')
    (hp : ∀ q ∈ ps, q.key ≠ p.key) : Edits (p :: ps) t t'' where
  nodes := h'.nodes.trans h.nodes
  created := h'.created.trans h.created
  set := by
    rw [List.forall_mem_cons]
    refine ⟨?_, h'.set⟩
    rw [h'.other p.key hp]
    exact h.set p List.mem_cons_self
  other k hk := by
    rw [List.forall_mem_cons] at hk
    rw [h'.other k hk.2]
    exact h.other k fun q hq => List.mem_singleton.1 hq ▸ hk.1

theorem set_eq_ok_iff {name : String} {type : ValueType} {before : Option Value} {after : Value} :
    t.set id name type before after = (.ok (), t') ↔ id ∈ t.state.nodes ∧
      (∀ b, before = some b → id ∈ t.created ∨ (t.state.value ⟨id, name⟩ == b) = true) ∧
      t' = { t with state := t.state.set id name type after } := by
  have hnone : (before.filter fun b =>
      !t.created.contains id && !(t.state.value ⟨id, name⟩ == b)) = none ↔
      ∀ b, before = some b → id ∈ t.created ∨ (t.state.value ⟨id, name⟩ == b) = true := by
    rw [Option.filter_eq_none_iff]
    simp only [Bool.and_eq_true, Bool.not_eq_true', Bool.eq_false_iff, ne_eq, not_and, not_not,
      Std.ExtTreeSet.contains_iff_mem, or_iff_not_imp_left]
  rw [set, Std.ExtTreeMap.mem_iff_contains, ← hnone]
  by_cases hmem : t.state.nodes.contains id = true
  · simp only [hmem, if_true, true_and]
    split
    · rename_i b hb
      simp [hb]
    · rename_i hb
      simp only [hb, true_and, Prod.mk.injEq, eq_comm]
  · simp [hmem]

/-- An edit goes through: its object is there, and the value before, where the mode insists on it, is
current or need not be. -/
def Ready (mode : Replay.Mode) (t : Transaction) (p : Property) : Prop :=
  p.owner ∈ t.state.nodes ∧
    (mode = .conditional → p.owner ∈ t.created ∨ (t.state.value p.key == p.before) = true)

theorem apply_call_eq_ok_iff : t.apply (p.call mode) = (.ok (), t') ↔
    t.Ready mode p ∧ t' = { t with state := t.state.set p.owner p.name p.type p.after } := by
  cases mode with
  | plain =>
      rw [Property.call, apply, set_eq_ok_iff]
      simp [Ready]
  | conditional =>
      rw [Property.call, apply, set_eq_ok_iff]
      simp [Ready, Property.key, and_assoc]

theorem edits_of_apply (h : t.apply (p.call mode) = (.ok (), t')) : Edits [p] t t' := by
  obtain ⟨-, rfl⟩ := apply_call_eq_ok_iff.1 h
  constructor
  · rfl
  · rfl
  · intro q hq
    cases List.mem_singleton.1 hq
    rw [State.getElem?_properties_set, if_pos rfl]
  · intro k hk
    rw [State.getElem?_properties_set, if_neg (hk p List.mem_cons_self)]

theorem edits_of_run {ps : List Property} (hkeys : (ps.map Property.key).Nodup)
    (h : t.run (ps.map (Property.call mode)) = (.ok (), t')) : Edits ps t t' := by
  induction ps generalizing t with
  | nil =>
      cases h
      exact .refl _
  | cons p ps ih =>
      rw [List.map_cons, List.nodup_cons] at hkeys
      rw [List.map_cons, run_cons_eq_ok_iff] at h
      obtain ⟨t₁, ht₁, ht'⟩ := h
      refine (edits_of_apply ht₁).cons (ih hkeys.2 ht') ?_
      intro q hq heq
      exact hkeys.1 (List.mem_map.2 ⟨q, hq, heq⟩)

/-- What has been set elsewhere does not matter to an edit. -/
theorem Edits.ready_iff {ps : List Property} {q : Property} (h : Edits ps t t')
    (hq : ∀ p ∈ ps, p.key ≠ q.key) : t'.Ready mode q ↔ t.Ready mode q := by
  rw [Ready, Ready, h.nodes, h.created, State.value, State.value, h.other q.key hq]

/-- **A run of edits goes through exactly if each of them would go through at the start.** -/
theorem exists_run_edits_iff {ps : List Property} (hkeys : (ps.map Property.key).Nodup) :
    (∃ t', t.run (ps.map (Property.call mode)) = (.ok (), t')) ↔ ∀ p ∈ ps, t.Ready mode p := by
  induction ps generalizing t with
  | nil => exact ⟨fun _ p hp => absurd hp List.not_mem_nil, fun _ => ⟨t, rfl⟩⟩
  | cons p ps ih =>
      rw [List.map_cons, List.nodup_cons] at hkeys
      have hother {t₁ : Transaction} (ht₁ : t.apply (p.call mode) = (.ok (), t₁)) {q : Property}
          (hq : q ∈ ps) : t₁.Ready mode q ↔ t.Ready mode q := by
        refine (edits_of_apply ht₁).ready_iff fun a ha heq => hkeys.1 (List.mem_map.2 ⟨q, hq, ?_⟩)
        rw [← heq, List.mem_singleton.1 ha]
      simp only [List.map_cons, run_cons_eq_ok_iff, List.forall_mem_cons]
      constructor
      · rintro ⟨t', t₁, ht₁, ht'⟩
        refine ⟨(apply_call_eq_ok_iff.1 ht₁).1, fun q hq => (hother ht₁ hq).1 ?_⟩
        exact (ih hkeys.2).1 ⟨t', ht'⟩ q hq
      · rintro ⟨hp, hps⟩
        obtain ⟨t₁, ht₁⟩ : ∃ t₁, t.apply (p.call mode) = (.ok (), t₁) :=
          ⟨_, apply_call_eq_ok_iff.2 ⟨hp, rfl⟩⟩
        obtain ⟨t', ht'⟩ := (ih hkeys.2).2 fun q hq => (hother ht₁ hq).2 (hps q hq)
        exact ⟨t', t₁, ht₁, ht'⟩

end Workspace.Transaction

end GraphDelta
