/-
**Which object a reported cycle names.**

The forest of a map, the ranking of a batch and the search above an object that leaves its place all
climb along parents, and report the first object that they meet for the second time.  They differ in
where a climb begins and in what stops it, but not in what a repetition means.  What a climb has met is a
path without repetitions.  The object that comes up again lies on a cycle, and it is the one where the
path comes to that cycle: otherwise the object before it on the way there and the last one of the path,
which are different, would be two objects of one cycle with the same parent.

The ranking begins with the record of an addition, which need not be in the map.  Whatever a climb points
to is in the map, so a cycle of climbs is a cycle of the map as soon as the additions that are in the map
name the parents that they have there.

Main definitions:

* `Approaches` — one identifier leads to another over nothing that lies on a cycle.

Main results:

* `Circular.eq_of_next_eq` — no two identifiers of cycles point to the same one;
* `Climbed.approaches` — a path without repetitions comes back to where it came to the cycle;
* `entered_of_climb` — **a climb that loops names the place where it came to a cycle**, whatever its goals
  and its bound are;
* `Forest.entered_of_ofMap`, `Ranking.entered_of_ofBatch`, `Delta.entered_of_between` — so do the forest,
  the ranking and the difference;
* `reported_cycle_is_entered` — **what a reported cycle names**.
-/
import GraphDelta.Proofs.Depth
import GraphDelta.Proofs.Growth
import GraphDelta.Proofs.Removals

set_option autoImplicit false

namespace GraphDelta

variable {next next' : Ident → Option Ident} {goal : Ident → Bool} {path front back : List Ident}
  {s x y z : Ident}

/-! ### Coming to a cycle -/

/-- Following pointers from `s` leads to `z` over nothing that lies on a cycle. -/
def Approaches (next : Ident → Option Ident) (s z : Ident) : Prop :=
  ∃ path, Climbed next s path z ∧ ∀ y ∈ path, ¬ Circular next y

/-- No two identifiers of cycles point to the same one. -/
theorem Circular.eq_of_next_eq (hx : Circular next x) (hy : Circular next y) (hxz : next x = some z)
    (hyz : next y = some z) : x = y := by
  obtain ⟨a, ha, j, hj⟩ := leadsOn_iff.1 hx
  obtain ⟨b, hb, k, hk⟩ := leadsOn_iff.1 hy
  rw [hxz] at ha
  rw [hyz] at hb
  cases ha
  cases hb
  -- going round one cycle as often as the other one is long takes equally many steps
  have hroundx : follow next (j + 1) z = some z := by rw [follow_succ_right, hj]; exact hxz
  have hroundy : follow next (k + 1) z = some z := by rw [follow_succ_right, hk]; exact hyz
  have hleft : follow next (k * (j + 1) + j) z = some x := by
    rw [follow_add, Circular.follow_mul hroundx]
    exact hj
  have hright : follow next (j * (k + 1) + k) z = some y := by
    rw [follow_add, Circular.follow_mul hroundy]
    exact hk
  have hsteps : k * (j + 1) + j = j * (k + 1) + k := by
    rw [Nat.mul_succ, Nat.mul_succ, Nat.mul_comm k j]
    omega
  rw [hsteps, hright] at hleft
  exact (Option.some_inj.1 hleft).symm

namespace Climbed

/-- A path can be cut off at any identifier on it. -/
theorem of_append (h : Climbed next s (front ++ z :: back) x) : Climbed next s back z := by
  induction front generalizing x with
  | nil =>
      cases h with
      | step h _ => exact h
  | cons a front ih =>
      cases h with
      | step h _ => exact ih h

/-- The last identifier of a path points to where the climb is, and everything on the path leads to
it. -/
theorem last (h : Climbed next s (x :: path) z) :
    next x = some z ∧ ∀ y ∈ x :: path, Leads next y x := by
  cases h with
  | step h hz =>
      refine ⟨hz, fun y hy => ?_⟩
      rcases List.mem_cons.1 hy with rfl | hy
      · exact .refl y
      · exact (h.leadsOn hy).leads

/-- **A path without repetitions comes back to where it came to the cycle.** -/
theorem approaches (h : Climbed next s path z) (hnodup : path.Nodup) (hz : z ∈ path) :
    Approaches next s z := by
  have hround : Circular next z := h.leadsOn hz
  obtain ⟨front, back, rfl⟩ := List.append_of_mem hz
  refine ⟨back, h.of_append, fun y hy hyround => ?_⟩
  -- the identifier in front of `z`, and the last one of the path, lie on the cycle and point to `z`
  obtain ⟨v, back, rfl⟩ := List.exists_cons_of_ne_nil (List.ne_nil_of_mem hy)
  obtain ⟨hvz, hv⟩ := h.of_append.last
  have hvround : Circular next v := hyround.leads (hv y hy)
  cases front with
  | nil =>
      rw [List.nil_append] at h hnodup
      cases hvround.eq_of_next_eq (hround.leads (h.last.2 z List.mem_cons_self)) hvz h.last.1
      exact (List.nodup_cons.1 hnodup).1 List.mem_cons_self
  | cons w front =>
      rw [List.cons_append] at h hnodup hz
      cases hvround.eq_of_next_eq (hround.leads (h.last.2 z hz)) hvz h.last.1
      refine (List.nodup_cons.1 hnodup).1 (List.mem_append_right front ?_)
      exact List.mem_cons_of_mem z List.mem_cons_self

theorem mono (hn : ∀ a b, next a = some b → next' a = some b) (h : Climbed next s path z) :
    Climbed next' s path z := by
  induction h with
  | start => exact .start
  | step _ hy ih => exact ih.step (hn _ _ hy)

end Climbed

/-- More pointers put nothing that leads to a cycle onto another one. -/
theorem Approaches.mono (hn : ∀ a b, next a = some b → next' a = some b) (h : Approaches next s z)
    (hz : Circular next z) : Approaches next' s z := by
  obtain ⟨path, hpath, hno⟩ := h
  refine ⟨path, hpath.mono hn, fun y hy hround => hno y hy ?_⟩
  obtain ⟨k, hk⟩ := hround
  cases hw : follow next (k + 1) y with
  | none => exact absurd (Ends.leads ⟨k + 1, hw⟩ (hpath.leadsOn hy).leads) hz.not_ends
  | some w =>
      rw [follow_mono hn hw] at hk
      exact ⟨k, hk ▸ hw⟩

/-! ### Climbs that loop -/

/-- What a climb that loops has met is a path without repetitions, with what it reports on it. -/
theorem path_of_climb {fuel : Nat} {t : Trail} (ht : Climbed next s t.path x)
    (hnodup : t.path.Nodup) (h : climb next goal fuel t x = .looped z) :
    ∃ path, Climbed next s path z ∧ path.Nodup ∧ z ∈ path := by
  induction fuel generalizing t x with
  | zero => cases h
  | succ fuel ih =>
      rw [climb] at h
      split at h
      · cases h
      · split at h
        · rename_i hmet
          cases h
          exact ⟨t.path, ht, hnodup, Trail.contains_met_iff.1 hmet⟩
        · rename_i hmet
          have hx : x ∉ t.path := fun hx => hmet (Trail.contains_met_iff.2 hx)
          split at h
          · cases h
          · rename_i y hy
            exact ih (t := t.push x) (ht.step hy) (List.nodup_cons.2 ⟨hx, hnodup⟩) h

/-- **A climb that loops names the place where it came to a cycle**, whatever its goals and its bound
are. -/
theorem entered_of_climb {m : NodeMap} {t : Trail} (ht : Climbed next s t.path x)
    (hnodup : t.path.Nodup) (h : m.climb next goal t x = .looped z) :
    Circular next z ∧ Approaches next s z := by
  obtain ⟨path, hpath, hnodup, hz⟩ := path_of_climb ht hnodup h
  exact ⟨hpath.leadsOn hz, hpath.approaches hnodup hz⟩

/-! ### The forest of a map -/

section Forests

variable {m : NodeMap}

theorem NodeMap.entered_of_topOf (h : m.topOf s = .error (.cycle x)) :
    Circular m.parent? x ∧ Approaches m.parent? s x := by
  rw [topOf] at h
  split at h
  · cases h
  · rename_i hc
    cases h
    obtain ⟨hround, hway⟩ := entered_of_climb (t := .empty) .start .nil hc
    have hparent : ∀ a b, m.presentParent? a = some b → m.parent? a = some b :=
      fun a b hab => (presentParent?_eq_some_iff.1 hab).1
    exact ⟨hround.mono hparent, hway.mono hparent hround⟩
  · cases h

theorem Forest.entered_of_ofMap (h : ofMap m = .error (.cycle x)) :
    Circular m.parent? x ∧ ∃ s ∈ m, Approaches m.parent? s x := by
  rw [ofMap_eq] at h
  cases ht : m.keys.mapM m.topOf with
  | ok tops => rw [ht] at h; cases h
  | error e =>
      rw [ht] at h
      cases h
      obtain ⟨s, hs, htop⟩ := exists_of_mapM_eq_error ht
      obtain ⟨hround, hway⟩ := NodeMap.entered_of_topOf htop
      exact ⟨hround, s, Std.ExtTreeMap.mem_keys.1 hs, hway⟩

theorem Growth.ofMap_eq_error_iff {e : Fault} : ofMap m = .error e ↔ Forest.ofMap m = .error e := by
  have halike := endsAlike_ofMap m
  constructor
  · intro h
    rw [h] at halike
    generalize Forest.ofMap m = f at halike
    cases halike with
    | error e => rfl
  · intro h
    rw [h] at halike
    exact halike.eq_error

end Forests

/-! ### The ranking of a batch -/

namespace Ranking

variable {batch : List Ident} {m : NodeMap} {n : Node} {additions : List Node} {r : Ranking}

theorem entered_of_settle (h : settle batch m r n = .error (.cycle x)) :
    Circular (pointer batch m n) x ∧ Approaches (pointer batch m n) n.id x := by
  rw [settle_eq] at h
  split at h
  · cases h
  · cases h
  · rename_i hc
    cases h
    exact entered_of_climb (t := .empty) .start .nil hc

theorem mem_of_pointer (h : pointer batch m n x = some y) : y ∈ m := by
  rw [pointer] at h
  split at h
  · exact (batchParent?_eq_some_iff.1 h).2.2
  · obtain ⟨a, -, hy⟩ := Option.bind_eq_some_iff.1 h
    exact (batchParent?_eq_some_iff.1 hy).2.2

/-- A cycle that a climb runs into is one of the map, if the addition has no other parent there. -/
theorem circular_of_pointer (hn : ∀ a, m[n.id]? = some a → a.parent = n.parent)
    (h : Circular (pointer batch m n) x) : Circular m.parent? x := by
  have hparent {a b : Ident} (ha : a ∈ m) (hab : pointer batch m n a = some b) :
      m.parent? a = some b := by
    obtain ⟨p, hp⟩ := NodeMap.mem_iff_exists.1 ha
    refine NodeMap.parent?_eq_some_iff.2 ⟨p, hp, ?_⟩
    rw [pointer] at hab
    split at hab
    · rename_i heq
      rw [hn p (heq ▸ hp)]
      exact parent_of_batchParent? hab
    · rw [hp] at hab
      exact parent_of_batchParent? hab
  have hfollow {k : Nat} {a b : Ident} (ha : a ∈ m) (hab : follow (pointer batch m n) k a = some b) :
      follow m.parent? k a = some b := by
    induction k generalizing a with
    | zero => exact hab
    | succ k ih =>
        obtain ⟨c, hac, hcb⟩ := Option.bind_eq_some_iff.1 hab
        rw [follow_succ, hparent ha hac]
        exact ih (mem_of_pointer hac) hcb
  obtain ⟨k, hk⟩ := h
  have hx : x ∈ m := by
    have hlast := hk
    rw [follow_succ_right] at hlast
    obtain ⟨a, -, hax⟩ := Option.bind_eq_some_iff.1 hlast
    exact mem_of_pointer hax
  exact ⟨k, hfollow hx hk⟩

theorem entered_of_ofBatch (hadd : ∀ n ∈ additions, ∀ a, m[n.id]? = some a → a.parent = n.parent)
    (h : ofBatch additions m = .error (.cycle x)) :
    Circular m.parent? x ∧
      ∃ n ∈ additions, Approaches (pointer (additions.map Node.id) m n) n.id x := by
  obtain ⟨n, hn, r, hr⟩ := exists_of_foldlM_eq_error h
  obtain ⟨hround, hway⟩ := entered_of_settle hr
  exact ⟨circular_of_pointer (hadd n hn) hround, n, hn, hway⟩

end Ranking

/-! ### The difference of two catalogs -/

namespace Delta

variable {old new : NodeMap} {o c : Catalog} {n : Node}

theorem entered_of_topmost? (hn : old[n.id]? = some n)
    (h : topmost? old new n = .error (.cycle x)) :
    Circular old.parent? x ∧ Approaches old.parent? n.id x := by
  rw [topmost?] at h
  split at h
  · cases h
  · rename_i p hp
    have hparent : old.parent? n.id = some p := NodeMap.parent?_eq_some_iff.2 ⟨n, hn, hp⟩
    split at h
    · cases h
    · cases h
    · rename_i hc
      cases h
      exact entered_of_climb (.step .start hparent) (List.nodup_singleton n.id) hc

theorem entered_of_between (ho : o.nodes.Filed) (h : between o c = .error (.cycle x)) :
    (Circular c.nodes.parent? x ∧ ∃ s ∈ c.nodes, Approaches c.nodes.parent? s x) ∨
    (Circular o.nodes.parent? x ∧
      ∃ s, o.nodes.Departs c.nodes s ∧ Approaches o.nodes.parent? s x) := by
  rcases between_eq_error_iff.1 h with hf | ⟨f, -, hl⟩
  · left
    rw [newForest] at hf
    split at hf
    · cases hf
    · exact Forest.entered_of_ofMap hf
  · right
    obtain ⟨n, hn, htop⟩ := exists_of_mapM_eq_error hl
    obtain ⟨hrec, hleaves⟩ := (mem_leaving ho).1 hn
    obtain ⟨hround, hway⟩ := entered_of_topmost? hrec htop
    exact ⟨hround, n.id, cascades_iff_departs.1 hleaves, hway⟩

end Delta

/-- **What a reported cycle names.**  The object that is named lies on a cycle of parents, and is the one
where the climb that reports it came to that cycle.  For the forest of a map, grown or not, that is a
cycle of the map.  For a batch of additions that name the parents which they have in a map, as far as they
are in it, it is a cycle of the map.  For a comparison it is a cycle of the new objects, or one of the old
objects that lies above an object which leaves its place. -/
theorem reported_cycle_is_entered (x : Ident) :
    (∀ m, Forest.ofMap m = .error (.cycle x) ∨ Growth.ofMap m = .error (.cycle x) →
      Circular m.parent? x ∧ ∃ s ∈ m, Approaches m.parent? s x) ∧
    (∀ additions m, (∀ n ∈ additions, ∀ a, m[n.id]? = some a → a.parent = n.parent) →
      Ranking.ofBatch additions m = .error (.cycle x) →
        Circular m.parent? x ∧ ∃ n ∈ additions,
          Approaches (Ranking.pointer (additions.map Node.id) m n) n.id x) ∧
    ∀ c old new, (Comparison.compare c old new).1 = .error (.cycle x) →
      (Circular new.objects.parent? x ∧ ∃ s ∈ new.objects, Approaches new.objects.parent? s x) ∨
      (Circular old.objects.parent? x ∧
        ∃ s, old.objects.Departs new.objects s ∧ Approaches old.objects.parent? s x) := by
  refine ⟨fun m h => ?_, fun additions m => Ranking.entered_of_ofBatch, fun c old new h => ?_⟩
  · rw [Growth.ofMap_eq_error_iff, or_self] at h
    exact Forest.entered_of_ofMap h
  · cases c with
    | fresh =>
        rw [Comparison.compare] at h
        split at h
        · cases h
        · rename_i hd
          cases h
          exact Delta.entered_of_between (NodeMap.filed_ofList old.nodes) hd
    | failed _ _ | done _ _ _ => cases h

/-- The objects `p` and `q` are each other's parents, and `b` and `a` hang below them, so that climbs come
to the cycle at `p`.  The addition `n` is not in the map.  Of the two comparisons, the first one asks for
the forest of the new objects since `a` moves, and in the second one `a` is gone. -/
theorem reported_cycle_is_entered_behind_tail :
    let circle : List Node := [⟨some ⟨"q"⟩, "T", ⟨"p"⟩, 0⟩, ⟨some ⟨"p"⟩, "T", ⟨"q"⟩, 0⟩]
    let rest : List Node := ⟨some ⟨"p"⟩, "T", ⟨"b"⟩, 0⟩ :: circle
    let nodes : List Node := ⟨some ⟨"b"⟩, "T", ⟨"a"⟩, 0⟩ :: rest
    let additions : List Node := ⟨some ⟨"p"⟩, "T", ⟨"n"⟩, 0⟩ :: circle
    let m := NodeMap.ofList nodes
    let unhung : Snapshot := ⟨[⟨none, "T", ⟨"a"⟩, 0⟩], []⟩
    (Forest.ofMap m = .error (.cycle ⟨"p"⟩) ∧
      Circular m.parent? ⟨"p"⟩ ∧ ∃ s ∈ m, Approaches m.parent? s ⟨"p"⟩) ∧
    ((∀ n ∈ additions, ∀ a, m[n.id]? = some a → a.parent = n.parent) ∧
      Ranking.ofBatch additions m = .error (.cycle ⟨"p"⟩) ∧ ∃ n ∈ additions,
        Approaches (Ranking.pointer (additions.map Node.id) m n) n.id ⟨"p"⟩) ∧
    ((Comparison.fresh.compare unhung ⟨nodes, []⟩).1 = .error (.cycle ⟨"p"⟩) ∧
      (Circular m.parent? ⟨"p"⟩ ∨ Circular unhung.objects.parent? ⟨"p"⟩)) ∧
    (Comparison.fresh.compare ⟨nodes, []⟩ ⟨rest, []⟩).1 = .error (.cycle ⟨"p"⟩) ∧
      (Circular (NodeMap.ofList rest).parent? ⟨"p"⟩ ∨ Circular m.parent? ⟨"p"⟩) := by
  intro circle rest nodes additions m unhung
  obtain ⟨hmap, hbatch, hcompare⟩ := reported_cycle_is_entered ⟨"p"⟩
  have hforest : Forest.ofMap m = .error (.cycle ⟨"p"⟩) := by rfl
  have hagree : ∀ n ∈ additions, (m[n.id]?.all fun a => a.parent = n.parent) = true := by
    decide +kernel
  have hadd : ∀ n ∈ additions, ∀ a, m[n.id]? = some a → a.parent = n.parent := by
    intro n hn a ha
    have h := hagree n hn
    rw [ha] at h
    exact of_decide_eq_true h
  have hranking : Ranking.ofBatch additions m = .error (.cycle ⟨"p"⟩) := by rfl
  have hnew : (Comparison.fresh.compare unhung ⟨nodes, []⟩).1 = .error (.cycle ⟨"p"⟩) := by rfl
  have hold : (Comparison.fresh.compare ⟨nodes, []⟩ ⟨rest, []⟩).1 = .error (.cycle ⟨"p"⟩) := by rfl
  exact ⟨⟨hforest, hmap m (.inl hforest)⟩, ⟨hadd, hranking, (hbatch additions m hadd hranking).2⟩,
    ⟨hnew, (hcompare _ _ _ hnew).imp And.left And.left⟩,
    hold, (hcompare _ _ _ hold).imp And.left And.left⟩

end GraphDelta
