/-
**The order of additions whose top is left out.**

Leaving out the top of what is added hangs its children under a new root.  The additions are revised in
this way, and sorted, any number of times.  Their records then name parents that the new snapshot does
not know of, while the ancestors of an addition are still looked up in the new snapshot: there the parent
of a rehung addition is the one that was left out, and nothing above it belongs to the batch.

That is no matter as long as the new root is not added itself.  Where it is, a rehung addition should be
one deeper than the new root.  It is so if the climb from it comes to it first; but if an addition in
front of it leads to it, the rehung addition is taken for a top, and may come before the new root.

Main definitions:

* `Revision`, `Comparison.revise` — what is done to the additions of a comparison;
* `ParentsFirst` — the order in which additions should come;
* `Comparison.Hangs`, `Comparison.Accounted` — what revisions leave of the additions;
* `Comparison.Placed` — an addition that is not taken for a top by mistake.

Main results:

* `Comparison.accounted_revise` — **revisions rehang additions of the left-out tops only**, one revision
  after the other;
* `Comparison.order_parents_first` — **parents come first**, as far as additions are placed.
-/
import GraphDelta.Proofs.Depth
import GraphDelta.Proofs.Shape

set_option autoImplicit false

namespace GraphDelta

variable {old new : Snapshot} {c c' : Comparison} {d d' : Delta} {given given' : List Ident}
  {place x : Ident} {newRoot : Option Ident} {n : Node} {l : List Node}

/-- No addition comes before its parent, and additions under one parent, or under none, come in the
order of their places. -/
def ParentsFirst (l : List Node) : Prop :=
  l.Pairwise fun a b => a.parent ≠ some b.id ∧ (a.parent = b.parent → a.index ≤ b.index)

instance (l : List Node) : Decidable (ParentsFirst l) :=
  inferInstanceAs (Decidable (l.Pairwise fun a b =>
    a.parent ≠ some b.id ∧ (a.parent = b.parent → a.index ≤ b.index)))

/-! ### Revisions -/

/-- What can be done to the additions of a comparison. -/
inductive Revision where
  | sort
  /-- Leaves out the first one under `place`, and hangs its children under the new root. -/
  | omitRoot (place : Ident) (newRoot : Option Ident)
deriving DecidableEq

/-- The new root of a revision. -/
def Revision.newRoot? : Revision → Option Ident
  | .sort => none
  | .omitRoot _ newRoot => newRoot

/-- Revises a comparison; a revision that fails changes nothing. -/
def Comparison.revise (c : Comparison) : Revision → Comparison
  | .sort =>
    match c.sort with
    | .ok c => c
    | .error _ => c
  | .omitRoot place newRoot =>
    match c.omitRoot place newRoot with
    | .ok (_, c) => c
    | .error _ => c

namespace Delta

theorem parent_rehang (root newRoot : Ident) (n : Node) :
    (rehang root newRoot n).parent = n.parent ∨
      n.parent = some root ∧ (rehang root newRoot n).parent = some newRoot := by
  rw [rehang]
  split
  · rename_i hchild
    rw [Node.isChildOf, beq_iff_eq] at hchild
    exact .inr ⟨hchild, rfl⟩
  · exact .inl rfl

/-- What becomes of the additions when the top under a place is left out. -/
theorem exists_of_omitRoot? (h : d.omitRoot? place newRoot = some d') :
    ∃ before top after, d.additions = before ++ top :: after ∧
      d'.additions.map Node.id = (before ++ after).map Node.id ∧
      ∀ n ∈ d'.additions, ∃ b ∈ before ++ after, b.id = n.id ∧ (n.parent = b.parent ∨
        b.parent = some top.id ∧ ∃ r, newRoot = some r ∧ n.parent = some r) := by
  rw [omitRoot?] at h
  obtain ⟨top, htop, hd'⟩ := Option.bind_eq_some_iff.1 h
  cases hd'
  obtain ⟨before, after, hadd, hrest⟩ := exists_append_of_find? htop
  refine ⟨before, top, after, hadd, ?_⟩
  rw [← hrest]
  cases newRoot with
  | none => exact ⟨rfl, fun n hn => ⟨n, hn, rfl, .inl rfl⟩⟩
  | some r =>
      constructor
      · rw [List.map_map]
        exact List.map_congr_left fun b _ => id_rehang top.id r b
      · intro n hn
        obtain ⟨b, hb, rfl⟩ := List.mem_map.1 hn
        refine ⟨b, hb, (id_rehang top.id r b).symm, (parent_rehang top.id r b).imp_right ?_⟩
        rintro ⟨hchild, hparent⟩
        exact ⟨hchild, r, rfl, hparent⟩

end Delta

namespace Comparison

/-! ### What revisions leave of the additions -/

/-- An addition hangs where the given record does, or the record hangs under something that is not added
and the addition under one of the given roots. -/
def Hangs (given : List Ident) (d : Delta) (n a : Node) : Prop :=
  n.parent = a.parent ∨
    (∃ top, a.parent = some top ∧ d.adds top = false) ∧ ∃ r ∈ given, n.parent = some r

theorem Hangs.mono {a : Node} (h : Hangs given d n a) (hgiven : given ⊆ given')
    (hadds : ∀ x, d.adds x = false → d'.adds x = false) : Hangs given' d' n a := by
  refine h.imp_right ?_
  rintro ⟨⟨top, htop, hgone⟩, r, hr, hn⟩
  exact ⟨⟨top, htop, hadds top hgone⟩, r, hgiven hr, hn⟩

/-- The additions are objects of the new snapshot, each once, and hang where they hang there or under one
of the given roots. -/
structure Accounted (given : List Ident) (c : Comparison) : Prop where
  nodup : (c.delta.additions.map Node.id).Nodup
  recorded : ∀ n ∈ c.delta.additions, ∃ a, c.new.nodes[n.id]? = some a ∧ Hangs given c.delta n a

theorem accounted_of_compare (h : fresh.compare old new = (.ok (), c)) : c.Accounted [] := by
  obtain ⟨d, hd, rfl⟩ := compare_eq_ok_iff.1 h
  have hc : (Catalog.ofSnapshot new).nodes.Filed := NodeMap.filed_ofList new.nodes
  exact ⟨Delta.nodup_additions hc hd,
    fun n hn => ⟨n, ((Delta.mem_additions hc hd).1 hn).1, .inl rfl⟩⟩

theorem Accounted.append (h : c.Accounted given) (more : List Ident) :
    c.Accounted (given ++ more) := by
  refine ⟨h.nodup, ?_⟩
  intro n hn
  obtain ⟨a, ha, hangs⟩ := h.recorded n hn
  exact ⟨a, ha, hangs.mono (List.subset_append_left given more) fun _ => id⟩

theorem Accounted.sort (h : c.Accounted given) (hsort : c.sort = .ok c') : c'.Accounted given := by
  obtain ⟨o, n, d, l, rfl, rfl, hperm⟩ := exists_of_sort hsort
  have hadds (x : Ident) : Delta.adds { d with additions := l } x = d.adds x := by
    rw [Bool.eq_iff_iff, Delta.adds_eq_true_iff, Delta.adds_eq_true_iff]
    exact (hperm.map Node.id).mem_iff
  refine ⟨(hperm.map Node.id).nodup_iff.2 h.nodup, ?_⟩
  intro n hn
  obtain ⟨a, ha, hangs⟩ := h.recorded n (hperm.mem_iff.1 hn)
  exact ⟨a, ha, hangs.mono (List.Subset.refl given) fun x hx => (hadds x).trans hx⟩

/-- Leaving out the top rehangs its children, whose parent is not added any more then. -/
theorem Accounted.omitRoot (h : c.Accounted given) {found : Bool}
    (homit : c.omitRoot place newRoot = .ok (found, c')) :
    c'.Accounted (given ++ newRoot.toList) := by
  obtain ⟨o, n, d, d', rfl, rfl, rfl | hd'⟩ := exists_of_omitRoot homit
  · exact h.append newRoot.toList
  · obtain ⟨before, top, after, hadd, hids, hback⟩ := Delta.exists_of_omitRoot? hd'
    have hnodup : ((before ++ top :: after).map Node.id).Nodup := hadd ▸ h.nodup
    rw [List.map_append, List.map_cons, List.nodup_middle, List.nodup_cons, ← List.map_append,
      ← hids] at hnodup
    have htop : d'.adds top.id = false := by
      rw [Bool.eq_false_iff, ne_eq, Delta.adds_eq_true_iff]
      exact hnodup.1
    have hless (x : Ident) (hx : d.adds x = false) : d'.adds x = false := by
      rw [Bool.eq_false_iff] at hx ⊢
      exact fun hadds => hx (Delta.adds_of_omitRoot? hd' hadds)
    refine ⟨hnodup.2, ?_⟩
    intro n hn
    obtain ⟨b, hb, hid, hparent⟩ := hback n hn
    have hb : b ∈ d.additions := by
      rw [hadd]
      exact ((List.sublist_cons_self top after).append_left before).mem hb
    obtain ⟨a, ha, hangs⟩ := h.recorded b hb
    have hangs := hangs.mono (List.subset_append_left given newRoot.toList) hless
    rw [hid] at ha
    refine ⟨a, ha, ?_⟩
    rcases hparent with hparent | ⟨hchild, r, hr, hparent⟩
    · rw [Hangs, hparent]
      exact hangs
    · -- the record hangs under the top, unless the addition has been rehung before
      refine .inr ⟨?_, r, List.mem_append_right given (Option.mem_toList.2 hr), hparent⟩
      rcases hangs with hsame | ⟨hgone, -⟩
      · exact ⟨top.id, hsame.symm.trans hchild, htop⟩
      · exact hgone

theorem Accounted.revise (h : c.Accounted given) (r : Revision) :
    (c.revise r).Accounted (given ++ r.newRoot?.toList) := by
  cases r with
  | sort =>
      rw [Comparison.revise]
      split
      · rename_i hsort
        exact (h.sort hsort).append []
      · exact h.append []
  | omitRoot place newRoot =>
      rw [Comparison.revise]
      split
      · rename_i homit
        exact h.omitRoot homit
      · exact h.append newRoot.toList

/-- **Revisions rehang additions of the left-out tops only.** -/
theorem accounted_revise (h : fresh.compare old new = (.ok (), c)) (rs : List Revision) :
    (rs.foldl revise c).Accounted (rs.filterMap Revision.newRoot?) := by
  have hall {given : List Ident} {c : Comparison} (hc : c.Accounted given) :
      (rs.foldl revise c).Accounted (given ++ rs.filterMap Revision.newRoot?) := by
    induction rs generalizing given c with
    | nil => exact hc.append []
    | cons r rs ih =>
        have hrest := ih (hc.revise r)
        rw [List.append_assoc] at hrest
        cases hr : r.newRoot? with
        | none =>
            rw [hr] at hrest
            rw [List.filterMap_cons_none hr]
            exact hrest
        | some root =>
            rw [hr] at hrest
            rw [List.filterMap_cons_some hr]
            exact hrest
  exact hall (accounted_of_compare h)

/-! ### The order of the additions -/

/-- Where the addition hangs under an addition, it hangs under the same one in the new snapshot. -/
def Stays (c : Comparison) (n : Node) : Prop :=
  ∀ p, n.parent = some p → c.delta.adds p = true → c.new.nodes.parent? n.id = some p

/-- The addition stays where it was, or no addition in front of it leads to it. -/
def Placed (c : Comparison) (n : Node) : Prop :=
  c.Stays n ∨ ∀ before after, c.delta.additions = before ++ n :: after → ∀ a ∈ before,
    ¬ Leads (Ranking.pointer (c.delta.additions.map Node.id) c.new.nodes a) a.id n.id

theorem Accounted.batchParent?_eq (h : c.Accounted given) (hn : n ∈ c.delta.additions)
    (hstays : c.Stays n) :
    Ranking.batchParent? (c.delta.additions.map Node.id) c.new.nodes n =
      Ranking.parentIn? (c.delta.additions.map Node.id) c.new.nodes n.id := by
  obtain ⟨a, ha, hparent⟩ := h.recorded n hn
  rw [Ranking.parentIn?, ha, Option.bind_some]
  rcases hparent with hsame | ⟨⟨top, htop, hgone⟩, -⟩
  · rw [Ranking.batchParent?, Ranking.batchParent?, hsame]
  · -- what it hung under is not added, and what it hangs under is not added either
    refine Option.ext fun p => iff_of_false ?_ ?_
    · intro hp
      obtain ⟨hp, hbatch, -⟩ := Ranking.batchParent?_eq_some_iff.1 hp
      have hadds := Delta.adds_eq_true_iff.2 hbatch
      have hold := hstays p hp hadds
      rw [NodeMap.parent?, ha, Option.bind_some, htop] at hold
      cases hold
      rw [hgone] at hadds
      cases hadds
    · intro hp
      obtain ⟨hp, hbatch, -⟩ := Ranking.batchParent?_eq_some_iff.1 hp
      rw [htop] at hp
      cases hp
      rw [Delta.adds_eq_true_iff.2 hbatch] at hgone
      cases hgone

theorem Accounted.follows (h : c.Accounted given) {r : Ranking}
    (hr : Ranking.Ranked (c.delta.additions.map Node.id) c.new.nodes c.delta.additions r)
    (hn : n ∈ c.delta.additions) (hplaced : c.Placed n) :
    r.Follows (Ranking.pointer (c.delta.additions.map Node.id) c.new.nodes n) n.id := by
  rcases hplaced with hstays | hfirst
  · refine hr.follows_of_eq hn ?_
    intro a ha hid
    cases List.inj_on_of_nodup_map h.nodup ha hn hid
    exact h.batchParent?_eq hn hstays
  · obtain ⟨before, after, heq⟩ := List.append_of_mem hn
    exact hr.own before n after heq (hfirst before after heq)

/-- What hangs under none of the given roots stays where it was. -/
theorem Accounted.stays (h : c.Accounted given) (hgiven : ∀ r ∈ given, c.delta.adds r = false)
    (hn : n ∈ c.delta.additions) : c.Stays n := by
  intro p hp hadds
  obtain ⟨a, ha, hparent⟩ := h.recorded n hn
  rcases hparent with hsame | ⟨-, r, hr, hnr⟩
  · rw [NodeMap.parent?, ha, Option.bind_some, ← hsame]
    exact hp
  · rw [hp] at hnr
    cases hnr
    rw [hgiven p hr] at hadds
    cases hadds

theorem replayOrder_of_order (h : c.order = .ok l) :
    replayOrder c.delta.additions c.new.nodes = .ok l := by
  cases c with
  | fresh => cases h
  | failed => cases h
  | done o n d => exact h

theorem order_of_sort (h : c.sort = .ok c') : c.order = .ok c'.delta.additions := by
  cases c with
  | fresh => cases h
  | failed => cases h
  | done o n d =>
      rw [sort] at h
      cases hl : replayOrder d.additions n.nodes with
      | error f => rw [hl] at h; cases h
      | ok l => rw [hl] at h; cases h; exact hl

/-- Additions that are placed come after their parents, and in the order of their places. -/
theorem Accounted.pairwise_of_order (h : c.Accounted given) (hl : c.order = .ok l) :
    l.Pairwise fun a b => (c.Placed a → a.parent ≠ some b.id) ∧
      (c.Placed a → c.Placed b → a.parent = b.parent → a.index ≤ b.index) := by
  have hpair := pairwise_of_replayOrder (P := c.Placed) (replayOrder_of_order hl)
    fun r hr n hn hplaced => h.follows hr hn hplaced
  refine hpair.imp_of_mem ?_
  intro a b _ hb hab
  obtain ⟨m, hm, -⟩ := h.recorded b ((perm_of_order_eq_ok hl).mem_iff.1 hb)
  exact ⟨fun ha => hab.1 ha (NodeMap.mem_of_getElem?_eq_some hm), hab.2⟩

/-- **Parents come first**, as far as additions are placed, however the additions of a comparison have
been revised before.  All of them are placed if none of the given new roots is added itself. -/
theorem order_parents_first (h : fresh.compare old new = (.ok (), c)) (rs : List Revision)
    (hl : (rs.foldl revise c).order = .ok l ∨
      ∃ c', (rs.foldl revise c).sort = .ok c' ∧ c'.delta.additions = l) :
    l.Perm (rs.foldl revise c).delta.additions ∧
    (l.Pairwise fun a b => ((rs.foldl revise c).Placed a → a.parent ≠ some b.id) ∧
      ((rs.foldl revise c).Placed a → (rs.foldl revise c).Placed b → a.parent = b.parent →
        a.index ≤ b.index)) ∧
    ((∀ n ∈ (rs.foldl revise c).delta.additions, (rs.foldl revise c).Placed n) → ParentsFirst l) ∧
    ((∀ r ∈ rs.filterMap Revision.newRoot?, (rs.foldl revise c).delta.adds r = false) →
      ParentsFirst l) := by
  have haccounted := accounted_revise h rs
  generalize rs.foldl revise c = c' at haccounted hl ⊢
  have hl : c'.order = .ok l := by
    rcases hl with hl | ⟨c'', hsort, rfl⟩
    · exact hl
    · exact order_of_sort hsort
  have hperm := perm_of_order_eq_ok hl
  have hpair := haccounted.pairwise_of_order hl
  have hfirst (hplaced : ∀ n ∈ c'.delta.additions, c'.Placed n) : ParentsFirst l := by
    refine hpair.imp_of_mem ?_
    intro a b ha hb hab
    have ha := hplaced a (hperm.mem_iff.1 ha)
    exact ⟨hab.1 ha, hab.2 ha (hplaced b (hperm.mem_iff.1 hb))⟩
  exact ⟨hperm, hpair, hfirst, fun hgiven => hfirst fun n hn => .inl (haccounted.stays hgiven hn)⟩

/-- An object is hung under another one that is added too.  The climb from it is the first to come to it,
so that it comes after its new parent, and before what hangs under it. -/
theorem order_parents_first_under_addition :
    let new : Snapshot := ⟨[⟨some ⟨"r"⟩, "T", ⟨"a"⟩, 0⟩, ⟨none, "T", ⟨"n"⟩, 5⟩,
      ⟨some ⟨"ws"⟩, "T", ⟨"r"⟩, 0⟩, ⟨some ⟨"a"⟩, "T", ⟨"z"⟩, 0⟩], []⟩
    let rs : List Revision := [.omitRoot ⟨"ws"⟩ (some ⟨"n"⟩)]
    ∃ c l, fresh.compare ∅ new = (.ok (), c) ∧ (rs.foldl revise c).order = .ok l ∧
      l.map Node.id = [⟨"n"⟩, ⟨"a"⟩, ⟨"z"⟩] ∧
      (∀ n ∈ (rs.foldl revise c).delta.additions, (rs.foldl revise c).Placed n) ∧
      ParentsFirst l := by
  intro new rs
  let c : Comparison := (fresh.compare ∅ new).2
  have hcompare : fresh.compare ∅ new = (.ok (), c) := Prod.ext (by rfl) rfl
  obtain ⟨l, hl, hids⟩ : ∃ l, (rs.foldl revise c).order = .ok l ∧
      l.map Node.id = [⟨"n"⟩, ⟨"a"⟩, ⟨"z"⟩] := ⟨_, by rfl, by rfl⟩
  have hadditions : (rs.foldl revise c).delta.additions =
      [⟨some ⟨"n"⟩, "T", ⟨"a"⟩, 0⟩, ⟨none, "T", ⟨"n"⟩, 5⟩, ⟨some ⟨"a"⟩, "T", ⟨"z"⟩, 0⟩] := by rfl
  have hparent : (rs.foldl revise c).new.nodes.parent? ⟨"z"⟩ = some ⟨"a"⟩ := by rfl
  have hplaced : ∀ n ∈ (rs.foldl revise c).delta.additions, (rs.foldl revise c).Placed n := by
    generalize rs.foldl revise c = c' at hadditions hparent ⊢
    rw [hadditions, List.forall_mem_cons, List.forall_mem_cons, List.forall_mem_singleton]
    refine ⟨.inr ?_, .inl ?_, .inl ?_⟩
    · -- it is listed first, and only there
      intro before after heq a ha
      rw [hadditions] at heq
      obtain _ | ⟨b, before⟩ := before
      · cases ha
      · rw [List.cons_append, List.cons.injEq] at heq
        have hmem : (⟨some ⟨"n"⟩, "T", ⟨"a"⟩, 0⟩ : Node) ∈ before ++ _ :: after :=
          List.mem_append_right before List.mem_cons_self
        rw [← heq.2] at hmem
        exact absurd hmem (by decide)
    · intro p hp
      cases hp
    · intro p hp _
      cases hp
      exact hparent
  exact ⟨c, l, hcompare, hl, hids, hplaced,
    (order_parents_first hcompare rs (.inl hl)).2.2.1 hplaced⟩

/-- Parents do not always come first: an object that is hung under another addition comes before it, where
something below the object is listed in front of both. -/
theorem order_parents_last_under_addition : ¬ ∀ (old new : Snapshot) (c : Comparison)
    (rs : List Revision) (l : List Node), fresh.compare old new = (.ok (), c) →
      (rs.foldl revise c).order = .ok l → ParentsFirst l := by
  intro h
  let new : Snapshot := ⟨[⟨some ⟨"c"⟩, "T", ⟨"a"⟩, 0⟩, ⟨some ⟨"r"⟩, "T", ⟨"c"⟩, 0⟩,
    ⟨none, "T", ⟨"n"⟩, 5⟩, ⟨some ⟨"ws"⟩, "T", ⟨"r"⟩, 0⟩], []⟩
  let rs : List Revision := [.omitRoot ⟨"ws"⟩ (some ⟨"n"⟩)]
  let c : Comparison := (fresh.compare ∅ new).2
  have hok : (fresh.compare ∅ new).1 = .ok () := by decide +kernel
  have hcompare : fresh.compare ∅ new = (.ok (), c) :=
    (Prod.eta (fresh.compare ∅ new)).symm.trans (congrArg (·, c) hok)
  obtain ⟨l, hl, hno⟩ : ∃ l, (rs.foldl revise c).order = .ok l ∧ ¬ ParentsFirst l :=
    ⟨_, by rfl, by decide +kernel⟩
  exact hno (h ∅ new c rs l hcompare hl)

end Comparison

end GraphDelta
