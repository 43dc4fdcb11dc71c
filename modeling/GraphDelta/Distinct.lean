/-
**Lists without repetition.**

A list is walked once, with the set of the elements met so far, so long lists with few elements are
cheap.

Main definitions:

* `unseen` — keeps the first occurrence of each element that is not in a set;
* `distinct` — keeps the first occurrence of each element.

Main results:

* `distinct_cons` — the list without the set: an element in front drops its later occurrences;
* `distinct_concat` — an element at the end is dropped where it has occurred before;
* `mem_distinct`, `nodup_distinct` — the elements stay, and none occurs twice;
* `distinct_of_nodup` — a list without repetition stays as it is.
-/
import Std.Data.ExtTreeSet

set_option autoImplicit false

namespace GraphDelta

variable {α : Type} [Ord α] [Std.TransOrd α]

/-- The list with every element at its first place only, without the elements of a set. -/
def unseen (seen : Std.ExtTreeSet α) : List α → List α
  | [] => []
  | a :: l => if seen.contains a then unseen seen l else a :: unseen (seen.insert a) l

/-- The list with every element at its first place only. -/
def distinct (l : List α) : List α := unseen ∅ l

variable [Std.LawfulEqOrd α]

theorem mem_unseen {seen : Std.ExtTreeSet α} {a : α} {l : List α} :
    a ∈ unseen seen l ↔ a ∈ l ∧ a ∉ seen := by
  induction l generalizing seen with
  | nil => simp [unseen]
  | cons b l ih =>
    rw [unseen]
    split
    · rename_i hb
      have hb : b ∈ seen := Std.ExtTreeSet.mem_iff_contains.2 hb
      rw [ih, List.mem_cons]
      constructor
      · exact fun ⟨h, hs⟩ => ⟨.inr h, hs⟩
      · rintro ⟨rfl | h, hs⟩
        · exact absurd hb hs
        · exact ⟨h, hs⟩
    · rename_i hb
      have hb : b ∉ seen := fun h => hb (Std.ExtTreeSet.mem_iff_contains.1 h)
      rw [List.mem_cons, List.mem_cons, ih, Std.ExtTreeSet.mem_insert,
        Std.LawfulEqOrd.compare_eq_iff_eq]
      constructor
      · rintro (rfl | ⟨h, hs⟩)
        · exact ⟨.inl rfl, hb⟩
        · exact ⟨.inr h, fun ha => hs (.inr ha)⟩
      · rintro ⟨rfl | h, hs⟩
        · exact .inl rfl
        · by_cases hab : b = a
          · exact .inl hab.symm
          · exact .inr ⟨h, fun ha => ha.elim hab hs⟩

theorem nodup_unseen (seen : Std.ExtTreeSet α) (l : List α) : (unseen seen l).Nodup := by
  induction l generalizing seen with
  | nil => exact .nil
  | cons b l ih =>
    rw [unseen]
    split
    · exact ih seen
    · refine List.nodup_cons.2 ⟨fun h => ?_, ih _⟩
      exact (mem_unseen.1 h).2 Std.ExtTreeSet.mem_insert_self

@[simp] theorem mem_distinct {a : α} {l : List α} : a ∈ distinct l ↔ a ∈ l := by
  simp [distinct, mem_unseen]

theorem nodup_distinct (l : List α) : (distinct l).Nodup := nodup_unseen ∅ l

theorem unseen_eq_self {seen : Std.ExtTreeSet α} {l : List α} (h : l.Nodup)
    (hs : ∀ a ∈ l, a ∉ seen) : unseen seen l = l := by
  induction l generalizing seen with
  | nil => rfl
  | cons b l ih =>
    have hb := List.nodup_cons.1 h
    rw [unseen, if_neg fun hc => hs b List.mem_cons_self (Std.ExtTreeSet.mem_iff_contains.2 hc),
      ih hb.2]
    intro a ha hm
    rcases Std.ExtTreeSet.mem_insert.1 hm with hab | hm
    · exact hb.1 (Std.LawfulEqOrd.eq_of_compare hab ▸ ha)
    · exact hs a (List.mem_cons_of_mem b ha) hm

/-- A list without repetition stays as it is. -/
theorem distinct_of_nodup {l : List α} (h : l.Nodup) : distinct l = l :=
  unseen_eq_self h (by simp)

/-- An element of the set is dropped wherever it occurs. -/
theorem unseen_insert [DecidableEq α] (seen : Std.ExtTreeSet α) (a : α) (l : List α) :
    unseen (seen.insert a) l = (unseen seen l).filter (· ≠ a) := by
  induction l generalizing seen with
  | nil => rfl
  | cons b l ih =>
    have hin : (seen.insert a).contains b = true ↔ a = b ∨ seen.contains b = true := by simp
    rw [unseen, unseen]
    by_cases hb : seen.contains b
    · rw [if_pos (hin.2 (.inr hb)), if_pos hb, ih]
    · by_cases hab : a = b
      · subst hab
        rw [if_pos (hin.2 (.inl rfl)), if_neg hb, List.filter_cons_of_neg (by simp), eq_comm,
          List.filter_eq_self]
        intro x hx
        refine decide_eq_true fun h => (mem_unseen.1 hx).2 ?_
        exact h ▸ Std.ExtTreeSet.mem_insert_self
      · have hcomm : (seen.insert a).insert b = (seen.insert b).insert a := by
          refine Std.ExtTreeSet.ext_mem fun x => ?_
          simp only [Std.ExtTreeSet.mem_insert]
          exact or_left_comm
        rw [if_neg fun h => (hin.1 h).elim hab hb, if_neg hb, hcomm, ih]
        exact (List.filter_cons_of_pos (p := (· ≠ a)) (decide_eq_true (Ne.symm hab))).symm

/-- An element in front drops its later occurrences. -/
theorem distinct_cons [DecidableEq α] (a : α) (l : List α) :
    distinct (a :: l) = a :: (distinct l).filter (· ≠ a) := by
  rw [distinct, unseen, if_neg (by simp), unseen_insert, distinct]

/-- An element at the end is dropped where it has occurred before. -/
theorem distinct_concat [DecidableEq α] (l : List α) (a : α) :
    distinct (l ++ [a]) = if a ∈ l then distinct l else distinct l ++ [a] := by
  induction l with
  | nil => exact distinct_of_nodup (by simp)
  | cons b l ih =>
    rw [List.cons_append, distinct_cons, distinct_cons, ih]
    by_cases hl : a ∈ l
    · rw [if_pos hl, if_pos (List.mem_cons_of_mem b hl)]
    · by_cases hb : a = b
      · subst hb
        simp [hl]
      · simp [hl, hb]

end GraphDelta
