/-
**How climbs end.**

A climb keeps the trail of what it has visited and stops at a goal, at the top, or at an identifier
that comes up for the second time.  Its bound on the number of steps is never what ends it: the
trail has no repetition, and only finitely many identifiers point on.

Main definitions:

* `Climbed` — following pointers from a start visits a list of identifiers and comes to another one;
* `Passed` — a part of a chain holds no goal;
* `Ascent.Sound` — what the end of a climb says about the chain that it followed.

Main results:

* `Climbed.mem_path_iff` — the visited identifiers are those at smaller distances;
* `Climbed.exists_le` — a climb that is back where it was has visited all of its chain;
* `climb_sound` — **every end of a climb means what it says**, whatever the bound, as long as there
  is room for every identifier that points on;
* `climb_eq_of_ne_stopped` — a goal that is not reached makes no difference;
* `NodeMap.climb_sound` — the bound of a climb over a map of objects leaves that room.
-/
import GraphDelta.Ascent
import GraphDelta.Proofs.Chain

set_option autoImplicit false

namespace GraphDelta

variable {next : Ident → Option Ident} {goal : Ident → Bool} {s x y z : Ident} {path : List Ident}
  {k : Nat}

/-! ### Visited identifiers -/

/-- Following pointers from `s` visits `path`, the last one first, and comes to an identifier. -/
inductive Climbed (next : Ident → Option Ident) (s : Ident) : List Ident → Ident → Prop
  | start : Climbed next s [] s
  | step {path : List Ident} {x y : Ident} : Climbed next s path x → next x = some y →
      Climbed next s (x :: path) y

theorem Climbed.follow_eq (h : Climbed next s path x) : follow next path.length s = some x := by
  induction h with
  | start => rfl
  | step _ hy ih => rw [List.length_cons, follow_succ_right, ih]; exact hy

theorem Climbed.leads (h : Climbed next s path x) : Leads next s x := ⟨path.length, h.follow_eq⟩

/-- The visited identifiers are those at smaller distances from the start. -/
theorem Climbed.mem_path_iff (h : Climbed next s path x) :
    z ∈ path ↔ ∃ k < path.length, follow next k s = some z := by
  induction h with
  | start => simp
  | @step path x y h _ ih =>
      rw [List.mem_cons, ih, List.length_cons]
      constructor
      · rintro (rfl | ⟨k, hk, hz⟩)
        · exact ⟨path.length, Nat.lt_succ_self _, h.follow_eq⟩
        · exact ⟨k, Nat.lt_succ_of_lt hk, hz⟩
      · rintro ⟨k, hk, hz⟩
        rcases Nat.lt_succ_iff_lt_or_eq.1 hk with hlt | rfl
        · exact .inr ⟨k, hlt, hz⟩
        · rw [h.follow_eq] at hz
          exact .inl (Option.some_inj.1 hz).symm

theorem Climbed.leadsOn (h : Climbed next s path x) (hz : z ∈ path) : LeadsOn next z x := by
  obtain ⟨k, hk, hkz⟩ := h.mem_path_iff.1 hz
  obtain ⟨a, ha, hax⟩ := follow_split h.follow_eq (Nat.le_of_lt hk)
  rw [hkz] at ha
  cases ha
  refine ⟨path.length - k - 1, ?_⟩
  rwa [Nat.sub_add_cancel (by omega)]

/-- Once a climb is back at a visited identifier, nothing lies further away than it has come. -/
theorem Climbed.exists_le (h : Climbed next s path x) (hx : x ∈ path)
    (hk : follow next k s = some y) :
    ∃ j ≤ path.length, (0 < k → 0 < j) ∧ follow next j s = some y := by
  obtain ⟨i, hi, hix⟩ := h.mem_path_iff.1 hx
  -- induction on the distance, which a turn of the cycle shortens
  induction k using Nat.strong_induction_on with
  | _ k ih =>
      rcases Nat.lt_or_ge path.length k with hlt | hge
      · obtain ⟨a, ha, hay⟩ := follow_split hk (Nat.le_of_lt hlt)
        rw [h.follow_eq, ← hix] at ha
        have hshort : follow next (i + (k - path.length)) s = some y := by
          rw [follow_add, ha]
          exact hay
        obtain ⟨j, hj, hpos, hjy⟩ := ih (i + (k - path.length)) (by omega) hshort
        exact ⟨j, hj, fun _ => hpos (by omega), hjy⟩
      · exact ⟨k, hge, id, hk⟩

theorem Climbed.subset {keys : List Ident} (hkeys : ∀ a b, next a = some b → a ∈ keys)
    (h : Climbed next s path x) : path ⊆ keys := by
  intro z hz
  obtain ⟨a, ha, -⟩ := leadsOn_iff.1 (h.leadsOn hz)
  exact hkeys z a ha

theorem Climbed.mem_or_eq (h : Climbed next s path x) : s ∈ path ∨ s = x := by
  cases path with
  | nil => exact .inr (Option.some_inj.1 h.follow_eq)
  | cons z path => exact .inl (h.mem_path_iff.2 ⟨0, Nat.succ_pos _, rfl⟩)

/-- A climb that comes to something new has visited nothing twice. -/
theorem Climbed.nodup (h : Climbed next s path x) (hx : x ∉ path) : path.Nodup := by
  induction h with
  | start => exact .nil
  | @step path z x h hzx ih =>
      have hz : z ∉ path := by
        intro hz
        obtain ⟨k, hk, hkz⟩ := h.mem_path_iff.1 hz
        have hkx : follow next (k + 1) s = some x := by
          rw [follow_succ_right, hkz]
          exact hzx
        exact hx ((h.step hzx).mem_path_iff.2 ⟨k + 1, Nat.succ_lt_succ hk, hkx⟩)
      exact List.nodup_cons.2 ⟨hz, ih hz⟩

theorem Climbed.leads_of_mem (h : Climbed next s path x) (hy : y ∈ path) : Leads next s y := by
  obtain ⟨k, -, hk⟩ := h.mem_path_iff.1 hy
  exact ⟨k, hk⟩

/-! ### The ends of a climb -/

/-- None of the identifiers from the given distance on, up to the second one, is a goal. -/
def Passed (next : Ident → Option Ident) (goal : Ident → Bool) (s : Ident) (skip upTo : Nat) : Prop :=
  ∀ j y, skip ≤ j → j < upTo → follow next j s = some y → goal y = false

/-- What the end of a climb from `s` says, if the first `skip` identifiers were not looked at: the
others before the end are no goals, and the end is what it is said to be. -/
def Ascent.Sound (next : Ident → Option Ident) (goal : Ident → Bool) (s : Ident) (skip : Nat) :
    Ascent → Prop
  | .top path => ∃ z rest, path = z :: rest ∧ Climbed next s rest z ∧ next z = none ∧
      Passed next goal s skip path.length
  | .stopped z path => skip ≤ path.length ∧ Climbed next s path z ∧ goal z = true ∧
      Passed next goal s skip path.length
  | .looped z => ∃ path, skip ≤ path.length ∧ Climbed next s path z ∧ z ∈ path ∧ goal z = false ∧
      Passed next goal s skip path.length

theorem Ascent.Sound.of_top {skip : Nat} (h : (Ascent.top path).Sound next goal s skip) :
    Ends next s ∧ ∀ k y, skip ≤ k → follow next k s = some y → goal y = false := by
  obtain ⟨z, rest, rfl, hclimbed, hz, hpassed⟩ := h
  have hend : follow next (rest.length + 1) s = none := by
    rw [follow_succ_right, hclimbed.follow_eq]
    exact hz
  refine ⟨⟨_, hend⟩, ?_⟩
  intro k y hk hy
  exact hpassed k y hk (follow_eq_none_after hend hy).1 hy

theorem Ascent.Sound.of_looped {skip : Nat} (hskip : skip ≤ 1)
    (h : (Ascent.looped z).Sound next goal s skip) :
    (∃ k, skip ≤ k ∧ follow next k s = some z) ∧ Circular next z ∧
      ∀ k y, skip ≤ k → follow next k s = some y → goal y = false := by
  obtain ⟨path, hlen, hclimbed, hz, hgoal, hpassed⟩ := h
  refine ⟨⟨path.length, hlen, hclimbed.follow_eq⟩, hclimbed.leadsOn hz, ?_⟩
  intro k y hk hy
  obtain ⟨j, hj, hpos, hjy⟩ := hclimbed.exists_le hz hy
  rcases Nat.lt_or_eq_of_le hj with hlt | rfl
  · exact hpassed j y (by omega) hlt hjy
  · rw [hclimbed.follow_eq] at hjy
    cases hjy
    exact hgoal

/-- **Every end of a climb means what it says**, if the bound leaves room for every identifier that
points on. -/
theorem climb_sound {keys : List Ident} {skip fuel : Nat} {t : Trail}
    (hkeys : ∀ a b, next a = some b → a ∈ keys) (ht : Climbed next s t.path x)
    (hnodup : t.path.Nodup) (hskip : skip ≤ t.path.length)
    (hpassed : Passed next goal s skip t.path.length)
    (hroom : keys.length < fuel + t.path.length) :
    (climb next goal fuel t x).Sound next goal s skip := by
  induction fuel generalizing t x with
  | zero =>
      have hle := (List.subperm_of_subset hnodup (ht.subset hkeys)).length_le
      omega
  | succ fuel ih =>
      rw [climb]
      by_cases hg : goal x = true
      · rw [if_pos hg]
        exact ⟨hskip, ht, hg, hpassed⟩
      · rw [if_neg hg]
        rw [Bool.not_eq_true] at hg
        by_cases hm : x ∈ t.path
        · rw [if_pos (Trail.contains_met_iff.2 hm)]
          exact ⟨t.path, hskip, ht, hm, hg, hpassed⟩
        · rw [if_neg fun hc => hm (Trail.contains_met_iff.1 hc)]
          have hmore : Passed next goal s skip (x :: t.path).length := by
            intro j y hj hlt hy
            rcases Nat.lt_succ_iff_lt_or_eq.1 hlt with hlt | rfl
            · exact hpassed j y hj hlt hy
            · rw [ht.follow_eq] at hy
              cases hy
              exact hg
          cases hx : next x with
          | none => exact ⟨x, t.path, rfl, ht, hx, hmore⟩
          | some y =>
              refine ih (t := t.push x) (ht.step hx) (List.nodup_cons.2 ⟨hm, hnodup⟩) ?_ hmore ?_
              · exact Nat.le_succ_of_le hskip
              · rw [Trail.push, List.length_cons]
                omega

/-- A goal that is not reached makes no difference. -/
theorem climb_eq_of_ne_stopped {fuel : Nat} {t : Trail} {r : Ascent} (h : climb next goal fuel t x = r)
    (hr : ∀ z path, r ≠ .stopped z path) : climb next (fun _ => false) fuel t x = r := by
  induction fuel generalizing t x with
  | zero => exact h
  | succ fuel ih =>
      rw [climb] at h ⊢
      rw [if_neg Bool.false_ne_true]
      by_cases hg : goal x = true
      · rw [if_pos hg] at h
        exact absurd h.symm (hr x t.path)
      · rw [if_neg hg] at h
        by_cases hm : t.met.contains x = true
        · rwa [if_pos hm] at h ⊢
        · rw [if_neg hm] at h ⊢
          cases hx : next x with
          | none => rwa [hx] at h
          | some y =>
              rw [hx] at h
              exact ih h

/-- The bound of a climb over a map leaves room for its objects and one identifier more. -/
theorem NodeMap.climb_sound {m : NodeMap} {skip : Nat} {t : Trail} {extra : Ident}
    (hkeys : ∀ a b, next a = some b → a = extra ∨ a ∈ m) (ht : Climbed next s t.path x)
    (hnodup : t.path.Nodup) (hskip : skip ≤ t.path.length)
    (hpassed : Passed next goal s skip t.path.length) :
    (m.climb next goal t x).Sound next goal s skip := by
  have hmem : ∀ a b, next a = some b → a ∈ extra :: m.keys := by
    intro a b hab
    rw [List.mem_cons, Std.ExtTreeMap.mem_keys]
    exact hkeys a b hab
  refine GraphDelta.climb_sound hmem ht hnodup hskip hpassed ?_
  rw [List.length_cons, Std.ExtTreeMap.length_keys]
  omega

theorem NodeMap.climb_empty_sound {m : NodeMap} {extra : Ident}
    (hkeys : ∀ a b, next a = some b → a = extra ∨ a ∈ m) :
    (m.climb next goal .empty s).Sound next goal s 0 := by
  refine NodeMap.climb_sound hkeys .start .nil (Nat.zero_le _) ?_
  intro j y _ hj
  exact absurd hj (Nat.not_lt_zero j)

end GraphDelta
