/-
**What a comparison removes.**

An object leaves its place if it is gone or moved.  Of the objects that leave, a comparison lists those
whose parents end without leading on to another one that leaves.  On a chain of parents that ends there
is exactly one of them from every object that leaves.  On a chain that runs into a cycle there is none:
the comparison fails, but only if no object on the cycle leaves, as the search for a leaving ancestor
stops at the first one before it looks for a repetition.

Main definitions:

* `Delta.Topmost` — an object leaves, its parents end, and none of its ancestors leaves.

Main results:

* `Delta.topmost?_sound` — what the search above one object finds;
* `Delta.mem_removals` — **the removals are the topmost objects**;
* `Delta.exists_topmost`, `Delta.eq_of_leads_topmost` — on a chain that ends there is one topmost
  object, and never are there two;
* `Delta.exists_between_eq_ok_iff` — when a comparison fails;
* `Comparison.removals_cover` — **when the removals take everything that leaves**.
-/
import GraphDelta.Proofs.Difference

set_option autoImplicit false

namespace GraphDelta

variable {old new : NodeMap} {id x y z : Ident} {n r r' : Node}

namespace Delta

/-! ### The objects that leave -/

theorem mem_leaving (hold : old.Filed) :
    n ∈ leaving old new ↔ old[n.id]? = some n ∧ cascades old new n.id = true := by
  have hid (id : Ident) : id ∈ movedIds old new ++ (old.allIds new).filter (old.isGone new) ↔
      cascades old new id = true := by
    rw [List.mem_append, mem_movedIds, List.mem_filter, NodeMap.mem_allIds, cascades_iff, or_comm]
    refine or_congr_left ⟨And.right, fun h => ⟨.inl (NodeMap.isGone_iff.1 h).1, h⟩⟩
  rw [leaving, List.mem_filterMap]
  constructor
  · rintro ⟨a, ha, hn⟩
    cases hold a n hn
    exact ⟨hn, (hid _).1 ha⟩
  · rintro ⟨hn, hc⟩
    exact ⟨n.id, (hid _).2 hc, hn⟩

theorem nodup_leaving (hold : old.Filed) : ((leaving old new).map Node.id).Nodup := by
  have hids : (movedIds old new ++ (old.allIds new).filter (old.isGone new)).Nodup := by
    have hkeys : (old.allIds new).Nodup := Std.ExtTreeMap.nodup_keys
    refine List.nodup_append.2 ⟨hkeys.filter _, hkeys.filter _, ?_⟩
    rintro a ha b hb rfl
    rw [mem_movedIds] at ha
    rw [List.mem_filter] at hb
    exact (NodeMap.isGone_iff.1 hb.2).2 ha.mem.2
  exact hids.sublist (map_filterMap_sublist (fun id n hn => hold id n hn) _)

/-! ### Topmost objects -/

/-- An object leaves its place, its parents end, and none of its ancestors leaves. -/
def Topmost (old new : NodeMap) (id : Ident) : Prop :=
  cascades old new id = true ∧ Ends old.parent? id ∧
    ∀ y, LeadsOn old.parent? id y → cascades old new y = false

/-- What the search above an object finds: an ancestor that leaves, the end of its parents, or a cycle
on which nothing leaves. -/
theorem topmost?_sound (new : NodeMap) (hn : old[n.id]? = some n) :
    (topmost? old new n = .ok [] ∧ ∃ y, LeadsOn old.parent? n.id y ∧ cascades old new y = true) ∨
    (topmost? old new n = .ok [n] ∧ Ends old.parent? n.id ∧
      ∀ y, LeadsOn old.parent? n.id y → cascades old new y = false) ∨
    (∃ z, topmost? old new n = .error (.cycle z) ∧ LeadsOn old.parent? n.id z ∧
      Circular old.parent? z ∧ ∀ y, LeadsOn old.parent? n.id y → cascades old new y = false) := by
  have hparent : old.parent? n.id = n.parent := by rw [NodeMap.parent?, hn]; rfl
  cases hp : n.parent with
  | none =>
      rw [hp] at hparent
      refine .inr (.inl ⟨by rw [topmost?, hp], .of_eq_none hparent, ?_⟩)
      intro y hy
      obtain ⟨a, ha, -⟩ := leadsOn_iff.1 hy
      rw [hparent] at ha
      cases ha
  | some p =>
      rw [hp] at hparent
      have hkeys (a b : Ident) (hab : old.parent? a = some b) : a = p ∨ a ∈ old :=
        .inr (NodeMap.mem_of_parent? hab)
      have hsound : (old.climb old.parent? (cascades old new) (Trail.empty.push n.id) p).Sound
          old.parent? (cascades old new) n.id 1 :=
        NodeMap.climb_sound hkeys (.step .start hparent) (List.nodup_singleton n.id) (Nat.le_refl 1)
          fun j y hj hlt => absurd hlt (Nat.not_lt.2 hj)
      simp only [topmost?, hp]
      cases hc : old.climb old.parent? (cascades old new) (Trail.empty.push n.id) p with
      | stopped z path =>
          rw [hc] at hsound
          obtain ⟨hlen, hclimbed, hz, -⟩ := hsound
          refine .inl ⟨rfl, z, ⟨path.length - 1, ?_⟩, hz⟩
          rw [Nat.sub_add_cancel hlen]
          exact hclimbed.follow_eq
      | top path =>
          rw [hc] at hsound
          obtain ⟨hends, hno⟩ := hsound.of_top
          refine .inr (.inl ⟨rfl, hends, ?_⟩)
          rintro y ⟨k, hk⟩
          exact hno (k + 1) y (Nat.succ_pos k) hk
      | looped z =>
          rw [hc] at hsound
          obtain ⟨⟨k, hk, hkz⟩, hz, hno⟩ := hsound.of_looped (Nat.le_refl 1)
          refine .inr (.inr ⟨z, rfl, ⟨k - 1, ?_⟩, hz, ?_⟩)
          · rwa [Nat.sub_add_cancel hk]
          · rintro y ⟨j, hj⟩
            exact hno (j + 1) y (Nat.succ_pos j) hj

theorem topmost?_eq_ok_self_iff (hn : old[n.id]? = some n) (hc : cascades old new n.id = true) :
    topmost? old new n = .ok [n] ↔ Topmost old new n.id := by
  rcases topmost?_sound new hn with ⟨he, y, hy, hcy⟩ | ⟨he, hends, hno⟩ | ⟨z, he, hon, hz, -⟩
  · simp only [he, Except.ok.injEq, List.nil_eq, reduceCtorEq, false_iff]
    rintro ⟨-, -, hno⟩
    exact Bool.false_ne_true ((hno y hy).symm.trans hcy)
  · exact iff_of_true he ⟨hc, hends, hno⟩
  · simp only [he, reduceCtorEq, false_iff]
    rintro ⟨-, hends, -⟩
    exact hz.not_ends (hends.leads hon.leads)

theorem eq_of_topmost?_eq_ok {l : List Node} (h : topmost? old new n = .ok l) :
    l = [] ∨ l = [n] := by
  rw [topmost?] at h
  split at h
  · cases h
    exact .inr rfl
  · split at h
    all_goals cases h
    · exact .inl rfl
    · exact .inr rfl

theorem exists_topmost (hc : cascades old new id = true) (hends : Ends old.parent? id) :
    ∃ y, Leads old.parent? id y ∧ Topmost old new y := by
  obtain ⟨y, hy, hcy, hno⟩ := hends.exists_last (p := fun z => cascades old new z = true) hc
  exact ⟨y, hy, hcy, hends.leads hy, fun z hz => Bool.eq_false_iff.2 (hno z hz)⟩

theorem Topmost.not_leadsOn (hx : Topmost old new x) (hy : Topmost old new y) :
    ¬ LeadsOn old.parent? x y := fun h => Bool.false_ne_true ((hx.2.2 y h).symm.trans hy.1)

/-- No chain meets two topmost objects. -/
theorem eq_of_leads_topmost (hx : Leads old.parent? id x) (hy : Leads old.parent? id y)
    (htx : Topmost old new x) (hty : Topmost old new y) : x = y := by
  rcases hx.total hy with h | h
  · rcases leads_iff.1 h with h | h
    · exact h
    · exact absurd h (htx.not_leadsOn hty)
  · rcases leads_iff.1 h with h | h
    · exact h.symm
    · exact absurd h (hty.not_leadsOn htx)

/-! ### The list of removals -/

variable {lists : List (List Node)}

theorem mem_flatten_topmost (hold : old.Filed)
    (h : (leaving old new).mapM (topmost? old new) = .ok lists) :
    r ∈ lists.flatten ↔ old[r.id]? = some r ∧ Topmost old new r.id := by
  rw [List.mem_flatten]
  constructor
  · rintro ⟨l, hl, hr⟩
    obtain ⟨n, hn, hnl⟩ := (mem_of_mapM_eq_ok h).1 hl
    rcases eq_of_topmost?_eq_ok hnl with rfl | rfl
    · exact absurd hr List.not_mem_nil
    · cases List.mem_singleton.1 hr
      obtain ⟨hrec, hc⟩ := (mem_leaving hold).1 hn
      exact ⟨hrec, (topmost?_eq_ok_self_iff hrec hc).1 hnl⟩
  · rintro ⟨hrec, htop⟩
    have hr := (mem_leaving hold).2 ⟨hrec, htop.1⟩
    have hl := (topmost?_eq_ok_self_iff hrec htop.1).2 htop
    exact ⟨[r], (mem_of_mapM_eq_ok h).2 ⟨r, hr, hl⟩, List.mem_singleton.2 rfl⟩

theorem flatten_sublist {l : List Node} (h : l.mapM (topmost? old new) = .ok lists) :
    lists.flatten.Sublist l := by
  induction l generalizing lists with
  | nil => cases h; exact .slnil
  | cons n l ih =>
      obtain ⟨ns, rest, hns, hrest, rfl⟩ := mapM_cons_eq_ok_iff.1 h
      rw [List.flatten_cons]
      rcases eq_of_topmost?_eq_ok hns with rfl | rfl
      · exact (ih hrest).cons n
      · exact (ih hrest).cons_cons n

/-- Looking for the topmost objects fails exactly if an object that leaves runs into a cycle on which
nothing leaves. -/
theorem exists_topmost_eq_ok_iff (hold : old.Filed) :
    (∃ lists, (leaving old new).mapM (topmost? old new) = .ok lists) ↔
      ∀ x z, cascades old new x = true → Leads old.parent? x z → Circular old.parent? z →
        ∃ y, Leads old.parent? z y ∧ cascades old new y = true := by
  rw [exists_mapM_eq_ok_iff]
  constructor
  · intro h x z hx hxz hz
    by_contra hno
    push Not at hno
    -- the last object that leaves before the cycle is the one whose search fails
    obtain ⟨y, hxy, hy, hlast⟩ :=
      hxz.exists_last (p := fun a => cascades old new a = true) hno hx
    obtain ⟨n, hn⟩ := NodeMap.mem_iff_exists.1 (mem_of_cascades hy)
    cases hold y n hn
    obtain ⟨l, hl⟩ := h n ((mem_leaving hold).2 ⟨hn, hy⟩)
    have hends : ¬ Ends old.parent? n.id := by
      intro hends
      rcases hxy.total hxz with hnz | hzn
      · exact hz.not_ends (hends.leads hnz)
      · exact hno n.id hzn hy
    rcases topmost?_sound new hn with ⟨-, a, ha, hca⟩ | ⟨-, he, -⟩ | ⟨w, he, -⟩
    · exact hlast a ha hca
    · exact hends he
    · rw [he] at hl
      cases hl
  · intro h n hn
    obtain ⟨hrec, hc⟩ := (mem_leaving hold).1 hn
    rcases topmost?_sound new hrec with ⟨he, -⟩ | ⟨he, -⟩ | ⟨z, -, hon, hz, hno⟩
    · exact ⟨_, he⟩
    · exact ⟨_, he⟩
    · obtain ⟨y, hzy, hy⟩ := h n.id z hc hon.leads hz
      exact absurd ((hno y (hon.trans_leads hzy)).symm.trans hy) Bool.false_ne_true

/-! ### The removals of a difference -/

variable {o c : Catalog} {d : Delta}

/-- **The removals are the topmost objects.** -/
theorem mem_removals (ho : o.nodes.Filed) (h : between o c = .ok d) :
    r ∈ d.removals ↔ o.nodes[r.id]? = some r ∧ Topmost o.nodes c.nodes r.id := by
  obtain ⟨f, lists, -, hl, rfl⟩ := between_eq_ok_iff.1 h
  exact mem_flatten_topmost ho hl

theorem nodup_removals (ho : o.nodes.Filed) (h : between o c = .ok d) :
    (d.removals.map Node.id).Nodup := by
  obtain ⟨f, lists, -, hl, rfl⟩ := between_eq_ok_iff.1 h
  exact (nodup_leaving ho).sublist ((flatten_sublist hl).map Node.id)

/-- Two catalogs have a difference unless the forest is asked for and there is none, or an object that
leaves runs into a cycle on which nothing leaves. -/
theorem exists_between_eq_ok_iff (ho : o.nodes.Filed) : (∃ d, between o c = .ok d) ↔
    ((∃ id, o.nodes.Moved c.nodes id) → c.nodes.Acyclic) ∧
    ∀ x z, cascades o.nodes c.nodes x = true → Leads o.nodes.parent? x z →
      Circular o.nodes.parent? z →
        ∃ y, Leads o.nodes.parent? z y ∧ cascades o.nodes c.nodes y = true := by
  rw [← exists_newForest_eq_ok_iff, ← exists_topmost_eq_ok_iff ho]
  constructor
  · rintro ⟨d, hd⟩
    obtain ⟨f, lists, hf, hl, -⟩ := between_eq_ok_iff.1 hd
    exact ⟨⟨f, hf⟩, lists, hl⟩
  · rintro ⟨⟨f, hf⟩, lists, hl⟩
    exact ⟨_, between_eq_ok_iff.2 ⟨f, lists, hf, hl, rfl⟩⟩

theorem existsUnique_removal (ho : o.nodes.Filed) (h : between o c = .ok d)
    (hc : cascades o.nodes c.nodes id = true) (hends : Ends o.nodes.parent? id) :
    ∃! r, r ∈ d.removals ∧ Leads o.nodes.parent? id r.id := by
  obtain ⟨y, hy, htop⟩ := exists_topmost hc hends
  obtain ⟨r, hr⟩ := NodeMap.mem_iff_exists.1 (mem_of_cascades htop.1)
  cases ho y r hr
  refine ⟨r, ⟨(mem_removals ho h).2 ⟨hr, htop⟩, hy⟩, ?_⟩
  rintro r' ⟨hr', hy'⟩
  obtain ⟨hrec, htop'⟩ := (mem_removals ho h).1 hr'
  rw [eq_of_leads_topmost hy' hy htop' htop, hr] at hrec
  exact (Option.some_inj.1 hrec).symm

theorem ends_of_leads_removal (ho : o.nodes.Filed) (h : between o c = .ok d) (hr : r ∈ d.removals)
    (hid : Leads o.nodes.parent? id r.id) : Ends o.nodes.parent? id :=
  .of_leads hid ((mem_removals ho h).1 hr).2.2.1

end Delta

namespace Comparison

/-- **When the removals take everything that leaves.**  The removals are old records of objects that
leave, each listed once and none below another one.  From an object that leaves exactly one of them is
reached if its parents end, and none if they run into a cycle.  Such a cycle is reported only where
nothing on it leaves. -/
theorem removals_cover (old new : Snapshot) :
    (∀ c, fresh.compare old new = (.ok (), c) →
      (∀ r ∈ c.delta.removals, old.objects[r.id]? = some r ∧
        old.objects.Departs new.objects r.id) ∧
      (c.delta.removals.map Node.id).Nodup ∧
      (∀ r ∈ c.delta.removals, ∀ r' ∈ c.delta.removals, ¬ LeadsOn old.objects.parent? r.id r'.id) ∧
      ∀ id, old.objects.Departs new.objects id →
        ((∃! r, r ∈ c.delta.removals ∧ Leads old.objects.parent? id r.id) ↔
          Ends old.objects.parent? id) ∧
        (¬ Ends old.objects.parent? id → ∀ r ∈ c.delta.removals, ¬ Leads old.objects.parent? id r.id)) ∧
    ((∃ e, (fresh.compare old new).1 = .error e) ↔
      ((∃ id, old.objects.Moved new.objects id) ∧ ¬ new.objects.Acyclic) ∨
      ∃ id z, old.objects.Departs new.objects id ∧ Leads old.objects.parent? id z ∧
        Circular old.objects.parent? z ∧
          ∀ y, Leads old.objects.parent? z y → ¬ old.objects.Departs new.objects y) := by
  have ho : (Catalog.ofSnapshot old).nodes.Filed := NodeMap.filed_ofList old.nodes
  constructor
  · intro c hc
    obtain ⟨d, hd, rfl⟩ := compare_eq_ok_iff.1 hc
    refine ⟨?_, Delta.nodup_removals ho hd, ?_, ?_⟩
    · intro r hr
      obtain ⟨hrec, htop⟩ := (Delta.mem_removals ho hd).1 hr
      exact ⟨hrec, Delta.cascades_iff_departs.1 htop.1⟩
    · intro r hr r' hr'
      exact ((Delta.mem_removals ho hd).1 hr).2.not_leadsOn ((Delta.mem_removals ho hd).1 hr').2
    · intro id hid
      have hends : ∀ r ∈ d.removals, Leads old.objects.parent? id r.id → Ends old.objects.parent? id :=
        fun r hr => Delta.ends_of_leads_removal ho hd hr
      refine ⟨⟨?_, Delta.existsUnique_removal ho hd (Delta.cascades_iff_departs.2 hid)⟩,
        fun hno r hr h => hno (hends r hr h)⟩
      rintro ⟨r, ⟨hr, hidr⟩, -⟩
      exact hends r hr hidr
  · rw [exists_compare_eq_error_iff, Delta.exists_between_eq_ok_iff ho, not_and_or]
    push Not
    simp only [← Delta.cascades_iff_departs]
    rfl

/-- An object that is its own parent and is gone is not removed, and no cycle is reported. -/
theorem removals_miss_own_parent : ¬ ∀ (old new : Snapshot) (c : Comparison),
    fresh.compare old new = (.ok (), c) → ∀ id, old.objects.Departs new.objects id →
      ∃! r, r ∈ c.delta.removals ∧ Leads old.objects.parent? id r.id := by
  intro h
  have hc : fresh.compare ⟨[⟨some ⟨"a"⟩, "T", ⟨"a"⟩, 0⟩], []⟩ .empty = (.ok (),
      (fresh.compare ⟨[⟨some ⟨"a"⟩, "T", ⟨"a"⟩, 0⟩], []⟩ .empty).2) :=
    Prod.ext (by rfl) rfl
  obtain ⟨r, ⟨hr, -⟩, -⟩ := h _ _ _ hc ⟨"a"⟩ ⟨_, by rfl, by decide +kernel⟩
  have hnone : (fresh.compare ⟨[⟨some ⟨"a"⟩, "T", ⟨"a"⟩, 0⟩], []⟩ .empty).2.delta.removals = [] := by
    decide +kernel
  rw [hnone] at hr
  exact absurd hr List.not_mem_nil

end Comparison

end GraphDelta
