/-
**The rows of an outline.**

The rows of an outline list what is linked to the root, each object followed by what is linked to it.
The links are pointers, from each marked object to at most one other, and the root has none.  So every
marked object whose links lead to the root has one place among the rows, as deep as it takes links to
get to the root; and the rows are the trees of a grove, written down one after the other.

The height to which the rows are listed cuts nothing off, as links lead from one object to another in
fewer steps than there are marked objects.

Main definitions:

* `Outline.Grove` — trees of identifiers, side by side; `Grove.lines` writes them down, with depths;
* `Outline.Grove.Sorted`, `Outline.Grove.HangsUnder` — how siblings are ordered, and what trees hang
  under;
* `Outline.Sketch.Stands`, `Outline.Sketch.Before` — how siblings of an outline are ordered;
* `Outline.Sketch.above` — the links of the marked objects, as pointers;
* `Outline.Sketch.beneath` — the rows below an object, to a given height.

Main results:

* `Outline.Sketch.mem_rows` — **what the rows hold, and how deep**;
* `Outline.Sketch.nodup_rows` — **no object has two rows**;
* `Outline.Sketch.exists_grove` — **the rows are the trees of a grove**;
* `Outline.Sketch.beneath_root_eq_rows` — the height cuts nothing off.
-/
import GraphDelta.Outline
import GraphDelta.Proofs.Chain
import Mathlib.Data.List.Chain

set_option autoImplicit false

namespace GraphDelta.Outline

variable {c : Comparison} {s : Sketch} {root x y : Ident} {d e h k : Nat}

/-! ### Groves -/

/-- Trees of identifiers side by side: the top of the first one, what is below it, and the trees
beside it. -/
inductive Grove where
  | nil
  | cons (id : Ident) (below beside : Grove)

namespace Grove

/-- The identifiers of a grove with their depths, each one followed by what is below it. -/
def lines (d : Nat) : Grove → List (Ident × Nat)
  | nil => []
  | cons id below beside => (id, d) :: below.lines (d + 1) ++ beside.lines d

/-- The tops of the trees. -/
def tops : Grove → List Ident
  | nil => []
  | cons id _ beside => id :: beside.tops

/-- Side by side, each identifier comes before the next ones. -/
def Sorted (before : Ident → Ident → Prop) : Grove → Prop
  | nil => True
  | cons id below beside =>
    (∀ t ∈ beside.tops, before id t) ∧ below.Sorted before ∧ beside.Sorted before

/-- The tops are linked to `p`, and every other identifier to the one that it stands below. -/
def HangsUnder (linked : Ident → Ident → Prop) (p : Ident) : Grove → Prop
  | nil => True
  | cons id below beside => linked id p ∧ below.HangsUnder linked id ∧ beside.HangsUnder linked p

theorem le_of_mem_lines {g : Grove} {r : Ident × Nat} (hr : r ∈ g.lines d) : d ≤ r.2 := by
  induction g generalizing d with
  | nil => exact absurd hr List.not_mem_nil
  | cons id below beside ihbelow ihbeside =>
      rw [lines, List.mem_append, List.mem_cons] at hr
      rcases hr with (rfl | hr) | hr
      · exact Nat.le_refl d
      · exact Nat.le_of_succ_le (ihbelow hr)
      · exact ihbeside hr

theorem depth_of_mem_head? {g : Grove} {r : Ident × Nat} (hr : r ∈ (g.lines d).head?) : r.2 = d := by
  cases g with
  | nil => cases hr
  | cons id below beside => cases hr; rfl

/-- Nothing stands more than one level deeper than what stands in front of it. -/
theorem isChain_lines (g : Grove) (d : Nat) :
    (g.lines d).IsChain fun a b => b.2 ≤ a.2 + 1 := by
  induction g generalizing d with
  | nil => exact .nil
  | cons id below beside ihbelow ihbeside =>
      refine List.IsChain.append ?_ (ihbeside d) ?_
      · refine List.isChain_cons.2 ⟨?_, ihbelow (d + 1)⟩
        intro r hr
        exact Nat.le_of_eq (depth_of_mem_head? hr)
      · intro a ha b hb
        have hmem := List.mem_of_mem_getLast? ha
        rw [depth_of_mem_head? hb]
        rcases List.mem_cons.1 hmem with rfl | hmem
        · exact Nat.le_succ d
        · exact Nat.le_trans (Nat.le_of_succ_le (le_of_mem_lines hmem)) (Nat.le_succ a.2)

theorem HangsUnder.imp {linked linked' : Ident → Ident → Prop} {g : Grove}
    (h : ∀ r ∈ g.lines d, ∀ q, linked r.1 q → linked' r.1 q) {p : Ident} (hg : g.HangsUnder linked p) :
    g.HangsUnder linked' p := by
  induction g generalizing d p with
  | nil => exact trivial
  | cons id below beside ihbelow ihbeside =>
      obtain ⟨hid, hbelow, hbeside⟩ := hg
      rw [lines, List.forall_mem_append, List.forall_mem_cons] at h
      exact ⟨h.1.1 p hid, ihbelow h.1.2 hbelow, ihbeside h.2 hbeside⟩

end Grove

namespace Sketch

/-! ### Links as pointers -/

/-- What a marked object is linked to. -/
def above (s : Sketch) (id : Ident) : Option Ident := if id ∈ s.marks then s.links[id]? else none

theorem above_eq_some_iff : s.above x = some y ↔ x ∈ s.marks ∧ s.links[x]? = some y := by
  rw [above]
  split
  · rename_i hx
    exact (and_iff_right hx).symm
  · rename_i hx
    exact iff_of_false (Option.some_ne_none y).symm fun h => hx h.1

theorem mem_keys_of_above (a b : Ident) (h : s.above a = some b) : a ∈ s.marks.keys :=
  Std.ExtTreeMap.mem_keys.2 (above_eq_some_iff.1 h).1

theorem mem_children : x ∈ s.children c y ↔ s.above x = some y := by
  rw [children, mem_stableSort, List.mem_filter, Std.ExtTreeMap.mem_keys, beq_iff_eq,
    above_eq_some_iff]

/-- The place of an object among its siblings: in the new snapshot, or else in the old one, or else
behind the others. -/
inductive Stands (c : Comparison) (x : Ident) : Int32 → Prop
  | new {n : Node} : c.new.nodes[x]? = some n → Stands c x n.index
  | old {n : Node} : c.new.nodes[x]? = none → c.old.nodes[x]? = some n → Stands c x n.index
  | last : c.new.nodes[x]? = none → c.old.nodes[x]? = none → Stands c x Int32.maxValue

theorem stands_place (c : Comparison) (x : Ident) : Stands c x (place c x) := by
  rw [place]
  cases hnew : c.new.nodes[x]? with
  | some n => exact .new hnew
  | none =>
      cases hold : c.old.nodes[x]? with
      | some n => exact .old hnew hold
      | none => exact .last hnew hold

/-- One object comes before another of the same parent: by place, and then by identifier. -/
def Before (c : Comparison) (a b : Ident) : Prop :=
  ∃ i j, Stands c a i ∧ Stands c b j ∧ (i < j ∨ i = j ∧ compare a b = .lt)

theorem pairwise_children (c : Comparison) (s : Sketch) (x : Ident) :
    (s.children c x).Pairwise (Before c) := by
  have hkeys : (s.marks.keys.filter fun a => s.links[a]? == some x).Pairwise fun a b =>
      compare a b = .lt := Std.ExtTreeMap.ordered_keys.filter _
  refine (pairwise_stableSort_place hkeys).imp fun {a b} hab => ?_
  exact ⟨place c a, place c b, stands_place c a, stands_place c b, hab⟩

theorem nodup_children (c : Comparison) (s : Sketch) (x : Ident) : (s.children c x).Nodup :=
  (stableSort_perm _ _).nodup_iff.2 (Std.ExtTreeMap.nodup_keys.filter _)

/-! ### The rows below an object -/

/-- The rows of what is linked to an object, to the given height, from the given depth on. -/
def beneath (c : Comparison) (s : Sketch) (h d : Nat) (x : Ident) : List (Ident × Nat) :=
  (s.children c x).flatMap (s.preorder c h d)

theorem rows_eq (c : Comparison) (root : Ident) (s : Sketch) :
    s.rows c root = s.beneath c s.marks.size 0 root := rfl

theorem beneath_zero : s.beneath c 0 d x = [] := by
  rw [beneath, List.flatMap_eq_nil_iff]
  exact fun a _ => rfl

theorem beneath_succ : s.beneath c (h + 1) d x =
    (s.children c x).flatMap fun a => (a, d) :: s.beneath c h (d + 1) a := rfl

/-- Below an object, to a given height, is what links lead from to it in so many steps, and the depth
is the number of objects between. -/
theorem mem_beneath :
    (y, e) ∈ s.beneath c h d x ↔ ∃ k < h, e = d + k ∧ follow s.above (k + 1) y = some x := by
  induction h generalizing d x with
  | zero => simp [beneath_zero]
  | succ h ih =>
      rw [beneath_succ, List.mem_flatMap]
      constructor
      · rintro ⟨a, ha, hy⟩
        have hax : s.above a = some x := mem_children.1 ha
        rcases List.mem_cons.1 hy with hy | hy
        · cases hy
          exact ⟨0, Nat.succ_pos h, rfl, by rw [follow_succ, hax]; rfl⟩
        · obtain ⟨k, hk, rfl, hky⟩ := ih.1 hy
          refine ⟨k + 1, Nat.succ_lt_succ hk, by omega, ?_⟩
          rw [follow_succ_right, hky]
          exact hax
      · rintro ⟨k, hk, rfl, hky⟩
        rw [follow_succ_right] at hky
        obtain ⟨a, ha, hax⟩ := Option.bind_eq_some_iff.1 hky
        refine ⟨a, mem_children.2 hax, List.mem_cons.2 ?_⟩
        cases k with
        | zero =>
            cases ha
            exact .inl rfl
        | succ k => exact .inr (ih.2 ⟨k, Nat.lt_of_succ_lt_succ hk, by omega, ha⟩)

theorem leads_of_mem_beneath {r : Ident × Nat} (hr : r ∈ s.beneath c h d x) :
    LeadsOn s.above r.1 x := by
  obtain ⟨k, -, -, hk⟩ := mem_beneath.1 (show (r.1, r.2) ∈ s.beneath c h d x from hr)
  exact ⟨k, hk⟩

theorem nodup_beneath (hx : Ends s.above x) (h d : Nat) :
    ((s.beneath c h d x).map Prod.fst).Nodup := by
  induction h generalizing d x with
  | zero => rw [beneath_zero]; exact .nil
  | succ h ih =>
      rw [beneath_succ, List.map_flatMap]
      refine (List.nodup_cons.1 (nodup_cons_flatMap hx (nodup_children c s x)
        (fun a ha => mem_children.1 ha) (fun a _ z hz => ?_) (fun a ha => ?_))).2
      · rw [List.map_cons, List.mem_cons, List.mem_map] at hz
        rcases hz with rfl | ⟨r, hr, rfl⟩
        · exact .refl z
        · exact (leads_of_mem_beneath hr).leads
      · have hends : Ends s.above a :=
          .of_leads (.single (mem_children.1 ha)) hx
        rw [List.map_cons, List.nodup_cons, List.mem_map]
        refine ⟨?_, ih hends (d + 1)⟩
        rintro ⟨r, hr, rfl⟩
        have hcircular : Circular s.above r.1 := leads_of_mem_beneath hr
        exact hcircular.not_ends hends

/-- The rows below an object, as trees. -/
def grove (c : Comparison) (s : Sketch) : Nat → Ident → Grove
  | 0, _ => .nil
  | h + 1, x => (s.children c x).foldr (fun a rest => .cons a (grove c s h a) rest) .nil

theorem lines_grove (c : Comparison) (s : Sketch) (h d : Nat) (x : Ident) :
    (s.grove c h x).lines d = s.beneath c h d x := by
  induction h generalizing d x with
  | zero => rw [beneath_zero]; rfl
  | succ h ih =>
      rw [beneath_succ, grove]
      induction s.children c x with
      | nil => rfl
      | cons a as iha => rw [List.foldr_cons, Grove.lines, ih, iha, List.flatMap_cons]

theorem tops_foldr (below : Ident → Grove) (as : List Ident) :
    (as.foldr (fun a rest => Grove.cons a (below a) rest) .nil).tops = as := by
  induction as with
  | nil => rfl
  | cons a as ih => rw [List.foldr_cons, Grove.tops, ih]

theorem sorted_grove (c : Comparison) (s : Sketch) (h : Nat) (x : Ident) :
    (s.grove c h x).Sorted (Before c) := by
  induction h generalizing x with
  | zero => exact trivial
  | succ h ih =>
      rw [grove]
      have hsorted := pairwise_children c s x
      generalize s.children c x = as at hsorted
      induction as with
      | nil => exact trivial
      | cons a as iha =>
          obtain ⟨hfirst, hrest⟩ := List.pairwise_cons.1 hsorted
          refine ⟨?_, ih a, iha hrest⟩
          rw [tops_foldr]
          exact hfirst

theorem hangsUnder_grove (c : Comparison) (s : Sketch) (h : Nat) (x : Ident) :
    (s.grove c h x).HangsUnder (fun a b => s.above a = some b) x := by
  induction h generalizing x with
  | zero => exact trivial
  | succ h ih =>
      rw [grove]
      have hlinked : ∀ a ∈ s.children c x, s.above a = some x := fun a ha => mem_children.1 ha
      generalize s.children c x = as at hlinked
      induction as with
      | nil => exact trivial
      | cons a as iha =>
          rw [List.forall_mem_cons] at hlinked
          exact ⟨hlinked.1, ih a, iha hlinked.2⟩

/-- A height that no branch reaches cuts nothing off: to a greater one the rows are the same. -/
theorem beneath_of_le {h' : Nat} (hle : h ≤ h')
    (hbelow : ∀ y k, follow s.above (k + 1) y = some x → k < h) :
    s.beneath c h' d x = s.beneath c h d x := by
  induction h generalizing h' d x with
  | zero =>
      have hnone : s.children c x = [] := by
        refine List.eq_nil_iff_forall_not_mem.2 fun a ha => ?_
        exact Nat.not_lt_zero 0 (hbelow a 0 (by rw [follow_succ, mem_children.1 ha]; rfl))
      rw [beneath, beneath, hnone, List.flatMap_nil, List.flatMap_nil]
  | succ h ih =>
      obtain ⟨h', rfl⟩ := Nat.exists_eq_add_of_lt (Nat.lt_of_succ_le hle)
      rw [beneath_succ, beneath_succ]
      refine List.flatMap_congr fun a ha => ?_
      rw [ih (Nat.le_of_succ_le_succ hle)]
      intro y k hk
      refine Nat.lt_of_succ_lt_succ (hbelow y (k + 1) ?_)
      rw [follow_succ_right, hk]
      exact mem_children.1 ha

/-! ### The rows below the root -/

section

variable (hroot : root ∉ s.links)

include hroot

theorem above_root : s.above root = none := by
  rw [above, Std.ExtTreeMap.getElem?_eq_none hroot, ite_self]

theorem ends_root : Ends s.above root := ⟨1, by rw [follow_succ, above_root hroot]; rfl⟩

/-- The links from an object lead to the root in no more steps than there are marked objects. -/
theorem lt_size_of_follow_root (hk : follow s.above (k + 1) y = some root) : k < s.marks.size := by
  rw [follow_succ_right] at hk
  obtain ⟨a, ha, har⟩ := Option.bind_eq_some_iff.1 hk
  obtain ⟨j, hj, hja⟩ := Leads.exists_lt mem_keys_of_above (mem_keys_of_above a root har) ⟨k, ha⟩
  have hjr : follow s.above (j + 1) y = some root := by rw [follow_succ_right, hja]; exact har
  have hkr : follow s.above (k + 1) y = some root := by rw [follow_succ_right, ha]; exact har
  have heq := eq_of_follow_last (above_root hroot) hjr hkr
  rw [Std.ExtTreeMap.length_keys] at hj
  omega

/-- **The rows hold what links lead from to the root**, with the number of objects between as their
depth. -/
theorem mem_rows : (y, k) ∈ s.rows c root ↔ follow s.above (k + 1) y = some root := by
  rw [rows_eq, mem_beneath]
  constructor
  · rintro ⟨j, -, rfl, hj⟩
    rwa [Nat.zero_add]
  · intro hk
    exact ⟨k, lt_size_of_follow_root hroot hk, (Nat.zero_add k).symm, hk⟩

/-- **No object has two rows**, and the root has none. -/
theorem nodup_rows (c : Comparison) : ((s.rows c root).map Prod.fst).Nodup :=
  nodup_beneath (ends_root hroot) s.marks.size 0

theorem root_notMem_rows (c : Comparison) : root ∉ (s.rows c root).map Prod.fst := by
  rw [List.mem_map]
  rintro ⟨⟨y, k⟩, hr, rfl⟩
  have hround : Circular s.above y := ⟨k, (mem_rows hroot).1 hr⟩
  exact hround.not_ends (ends_root hroot)

theorem beneath_root_eq_rows (c : Comparison) (hh : s.marks.size ≤ h) :
    s.beneath c h 0 root = s.rows c root :=
  beneath_of_le hh fun _ _ hk => lt_size_of_follow_root hroot hk

end

/-- **The rows are the trees of a grove**, sorted by place, in which each object stands below the one
that it is linked to. -/
theorem exists_grove (c : Comparison) (s : Sketch) (root : Ident) :
    ∃ g : Grove, s.rows c root = g.lines 0 ∧ g.Sorted (Before c) ∧
      g.HangsUnder (fun a b => s.above a = some b) root :=
  ⟨s.grove c s.marks.size root, (lines_grove c s _ 0 root).symm, sorted_grove c s _ root,
    hangsUnder_grove c s _ root⟩

end Sketch

end GraphDelta.Outline
