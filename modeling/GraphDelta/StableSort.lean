/-
**Stable sorting.**

Insertion sort.  It is structural, so a sort of a closed list computes, and it is stable: elements
that the order does not tell apart stay as they were.

Main definitions:

* `insertSorted` — puts an element in front of the first one that it may precede;
* `stableSort` — sorts a list.

Main results:

* `stableSort_perm` — nothing is lost and nothing is new;
* `pairwise_stableSort` — **the result is sorted**, for a transitive and total order;
* `stableSort_eq_self` — a sorted list stays as it is;
* `filter_stableSort` — **equals stay in order**: the elements of a class that the order does not tell
  apart come out as they went in;
* `pairwise_stableSort_of_pairwise` — the result is sorted by the order, and then by whatever order the
  list had before;
* `pairwise_stableSort_place` — so it is where the order is that of places.
-/

set_option autoImplicit false

namespace GraphDelta

variable {α : Type}

/-- Puts an element in front of the first one that it may precede. -/
def insertSorted (le : α → α → Bool) (a : α) : List α → List α
  | [] => [a]
  | b :: l => if le a b then a :: b :: l else b :: insertSorted le a l

/-- Sorts a list by a total order; elements that the order does not tell apart keep their order. -/
def stableSort (le : α → α → Bool) : List α → List α
  | [] => []
  | a :: l => insertSorted le a (stableSort le l)

/-! ### Permutation -/

theorem insertSorted_perm (le : α → α → Bool) (a : α) (l : List α) :
    (insertSorted le a l).Perm (a :: l) := by
  induction l with
  | nil => exact .refl _
  | cons b l ih =>
    rw [insertSorted]
    split
    · exact .refl _
    · exact (ih.cons b).trans (.swap a b l)

theorem stableSort_perm (le : α → α → Bool) (l : List α) : (stableSort le l).Perm l := by
  induction l with
  | nil => exact .refl _
  | cons a l ih => exact (insertSorted_perm le a _).trans (ih.cons a)

theorem mem_stableSort {le : α → α → Bool} {l : List α} {a : α} : a ∈ stableSort le l ↔ a ∈ l :=
  (stableSort_perm le l).mem_iff

/-! ### Sortedness -/

theorem pairwise_insertSorted {le : α → α → Bool}
    (trans : ∀ a b c, le a b → le b c → le a c) (total : ∀ a b, le a b || le b a)
    {a : α} {l : List α} (h : l.Pairwise fun x y => le x y) :
    (insertSorted le a l).Pairwise fun x y => le x y := by
  induction l with
  | nil => simp [insertSorted]
  | cons b l ih =>
    have hb := List.pairwise_cons.1 h
    rw [insertSorted]
    split
    · rename_i hab
      refine List.pairwise_cons.2 ⟨?_, h⟩
      intro x hx
      rcases List.mem_cons.1 hx with rfl | hx
      · exact hab
      · exact trans _ _ _ hab (hb.1 x hx)
    · rename_i hab
      refine List.pairwise_cons.2 ⟨?_, ih hb.2⟩
      intro x hx
      rcases List.mem_cons.1 ((insertSorted_perm le a l).mem_iff.1 hx) with rfl | hx
      · have := total x b
        simp_all
      · exact hb.1 x hx

/-- The result is sorted. -/
theorem pairwise_stableSort {le : α → α → Bool}
    (trans : ∀ a b c, le a b → le b c → le a c) (total : ∀ a b, le a b || le b a)
    (l : List α) : (stableSort le l).Pairwise fun x y => le x y := by
  induction l with
  | nil => exact .nil
  | cons a l ih => exact pairwise_insertSorted trans total ih

/-- What is sorted by a comparison is sorted. -/
theorem pairwise_stableSort_isLE {cmp : α → α → Ordering} [Std.TransCmp cmp] (l : List α) :
    (stableSort (fun a b => (cmp a b).isLE) l).Pairwise fun a b => (cmp a b).isLE = true := by
  refine pairwise_stableSort (fun a b c => Std.TransCmp.isLE_trans) (fun a b => ?_) l
  have hswap : cmp b a = (cmp a b).swap := Std.OrientedCmp.eq_swap
  rw [hswap]
  cases cmp a b <;> rfl

theorem insertSorted_eq_cons {le : α → α → Bool} {a : α} {l : List α} (h : ∀ b ∈ l, le a b) :
    insertSorted le a l = a :: l := by
  cases l with
  | nil => rfl
  | cons b l => rw [insertSorted, if_pos (h b List.mem_cons_self)]

/-- A sorted list stays as it is. -/
theorem stableSort_eq_self {le : α → α → Bool} {l : List α} (h : l.Pairwise fun x y => le x y) :
    stableSort le l = l := by
  induction l with
  | nil => rfl
  | cons a l ih =>
    obtain ⟨ha, hl⟩ := List.pairwise_cons.1 h
    rw [stableSort, ih hl, insertSorted_eq_cons ha]

/-! ### Stability -/

theorem filter_insertSorted {le : α → α → Bool} {p : α → Bool}
    (equal : ∀ a b, p a → p b → le a b) (a : α) (l : List α) :
    (insertSorted le a l).filter p = (a :: l).filter p := by
  induction l with
  | nil => rfl
  | cons b l ih =>
    rw [insertSorted]
    split
    · rfl
    · rename_i hab
      by_cases ha : p a <;> by_cases hb : p b
      · exact absurd (equal a b ha hb) hab
      all_goals simp_all

/-- The elements of a class that the order does not tell apart come out as they went in. -/
theorem filter_stableSort {le : α → α → Bool} {p : α → Bool}
    (equal : ∀ a b, p a → p b → le a b) (l : List α) :
    (stableSort le l).filter p = l.filter p := by
  induction l with
  | nil => rfl
  | cons a l ih =>
    rw [stableSort, filter_insertSorted equal, List.filter_cons, List.filter_cons, ih]

/-- The result is sorted by the order, and where that does not tell two elements apart, by whatever
relation held along the list before. -/
theorem pairwise_stableSort_of_pairwise {le : α → α → Bool} {R : α → α → Prop}
    (trans : ∀ a b c, le a b → le b c → le a c) (total : ∀ a b, le a b || le b a)
    {l : List α} (h : l.Pairwise R) :
    (stableSort le l).Pairwise fun a b => le a b ∧ (le b a → R a b) := by
  refine List.pairwise_iff_forall_sublist.2 fun {a b} hab => ?_
  have hle : le a b := List.pairwise_iff_forall_sublist.1 (pairwise_stableSort trans total l) hab
  refine ⟨hle, fun hba => ?_⟩
  -- the two belong to one class, whose elements come out as they went in
  have hself : le a a := by simpa using total a a
  have hclass : ([a, b].filter fun x => le x a && le a x) = [a, b] := by simp [hself, hba, hle]
  have hequal : ∀ x y, (le x a && le a x) → (le y a && le a y) → le x y := by
    intro x y hx hy
    rw [Bool.and_eq_true] at hx hy
    exact trans x a y hx.1 hy.2
  have hsub := hab.filter fun x => le x a && le a x
  rw [hclass, filter_stableSort hequal] at hsub
  exact List.pairwise_iff_forall_sublist.1 h (hsub.trans List.filter_sublist)

/-- What is sorted by place is sorted by place, and then by whatever relation held before. -/
theorem pairwise_stableSort_place {place : α → Int32} {R : α → α → Prop} {l : List α}
    (h : l.Pairwise R) :
    (stableSort (fun a b => decide (place a ≤ place b)) l).Pairwise fun a b =>
      place a < place b ∨ place a = place b ∧ R a b := by
  have htrans : ∀ a b c, decide (place a ≤ place b) → decide (place b ≤ place c) →
      decide (place a ≤ place c) := by
    simp only [decide_eq_true_eq]
    exact fun a b c => Int32.le_trans
  have htotal : ∀ a b, decide (place a ≤ place b) || decide (place b ≤ place a) := by
    simp only [Bool.or_eq_true, decide_eq_true_eq]
    exact fun a b => Int32.le_total _ _
  refine (pairwise_stableSort_of_pairwise htrans htotal h).imp ?_
  rintro a b ⟨hab, hR⟩
  rw [decide_eq_true_eq] at hab hR
  by_cases hba : place b ≤ place a
  · exact .inr ⟨Int32.le_antisymm hab hba, hR hba⟩
  · exact .inl (Int32.not_le.1 hba)

end GraphDelta
