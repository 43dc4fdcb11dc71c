/-
**Walking down a forest.**

A subtree can be walked with nothing but a stack: an object is popped and listed, and its children are
pushed, the first one on top.  The walk does not remember what it has seen.  That it ends, and lists
nothing twice, is due to the shape of a forest: what hangs below different children of an object is
different, and the parents of every object come to an end.

At any time the subtrees of what is on the stack, one after the other, are what the walk has yet to list.
So it takes as many steps as there are objects in the subtree.

Main definitions:

* `Forest.walk` — the walk, with a bound on the number of steps.

Main results:

* `Forest.preorder_of_le` — a height that no branch reaches cuts nothing off;
* `Forest.below_eq_cons` — **an object is followed by the subtrees of its children**;
* `Forest.nodup_below` — **a subtree lists no object twice**;
* `Forest.walk_eq` — what the walk lists, and how many steps it takes;
* `Forest.subtree_lists` — **what the subtree of an object is, and when there is none**.
-/
import GraphDelta.Proofs.Subtree

set_option autoImplicit false

namespace GraphDelta

variable {m : NodeMap} {f : Forest} {x y : Ident} {h k : Nat}

/-- The distance of an object that does not lead back to itself is smaller than the number of objects. -/
theorem NodeMap.Acyclic.lt_size (hm : m.Acyclic) (hy : y ∈ m) (hk : follow m.parent? k x = some y) :
    k < m.size := by
  obtain ⟨j, hj, hjy⟩ := Leads.exists_lt mem_keys_of_parent? (Std.ExtTreeMap.mem_keys.2 hy) ⟨k, hk⟩
  rw [Std.ExtTreeMap.length_keys] at hj
  rwa [eq_of_follow_of_not_circular (hm y) hk hjy]

namespace Forest

/-! ### Subtrees -/

/-- A height that no branch reaches cuts nothing off. -/
theorem preorder_of_le {h' : Nat} (hle : h ≤ h') (hx : x ∈ f.nodes)
    (hbelow : ∀ y k, follow f.nodes.parent? k y = some x → k < h) :
    f.preorder h' x = f.preorder h x := by
  induction h generalizing h' x with
  | zero => exact absurd (hbelow x 0 rfl) (Nat.not_lt_zero 0)
  | succ h ih =>
      obtain ⟨h', rfl⟩ := Nat.exists_eq_add_of_lt (Nat.lt_of_succ_le hle)
      rw [preorder_succ, preorder_succ]
      congr 1
      refine List.flatMap_congr fun a ha => ?_
      obtain ⟨-, hax⟩ := mem_children.1 ha
      rw [ih (by omega) (NodeMap.mem_of_parent? hax)]
      intro y k hk
      refine Nat.lt_of_succ_lt_succ (hbelow y (k + 1) ?_)
      rw [follow_succ_right, hk]
      exact hax

/-- **An object is followed by the subtrees of its children.** -/
theorem below_eq_cons (hf : f.nodes.Acyclic) (hx : x ∈ f.nodes) :
    f.below x = x :: (f.children x).flatMap f.below := by
  obtain ⟨h, hh⟩ : ∃ h, f.nodes.size = h + 1 :=
    Nat.exists_eq_add_one_of_ne_zero (Nat.ne_of_gt (hf.lt_size (k := 0) hx rfl))
  rw [below, hh, preorder_succ]
  congr 1
  refine List.flatMap_congr fun a ha => ?_
  obtain ⟨-, hax⟩ := mem_children.1 ha
  rw [below, preorder_of_le (show h ≤ f.nodes.size by omega) (NodeMap.mem_of_parent? hax)]
  intro y k hk
  have hlt : k + 1 < f.nodes.size := hf.lt_size hx (by rw [follow_succ_right, hk]; exact hax)
  omega

theorem nodup_preorder (hf : f.nodes.Acyclic) (h : Nat) (x : Ident) : (f.preorder h x).Nodup := by
  induction h generalizing x with
  | zero => exact .nil
  | succ h ih =>
      rw [preorder_succ]
      refine nodup_cons_flatMap (hf.ends x) (f.nodup_children x)
        (fun a ha => (mem_children.1 ha).2) (fun a ha z hz => ?_) (fun a _ => ih a)
      obtain ⟨k, -, hk⟩ := (mem_preorder (NodeMap.mem_of_parent? (mem_children.1 ha).2)).1 hz
      exact ⟨k, hk⟩

/-- **A subtree lists no object twice.** -/
theorem nodup_below (hf : f.nodes.Acyclic) (x : Ident) : (f.below x).Nodup := nodup_preorder hf _ x

theorem length_below_le (hf : f.nodes.Acyclic) (hx : x ∈ f.nodes) : (f.below x).length ≤ f.size := by
  have hsub : f.below x ⊆ f.nodes.keys := by
    intro y hy
    exact Std.ExtTreeMap.mem_keys.2 (NodeMap.mem_of_leads ((mem_below hx).1 hy) hx)
  rw [size, ← Std.ExtTreeMap.length_keys]
  exact (List.subperm_of_subset (nodup_below hf x) hsub).length_le

/-! ### The walk -/

/-- Pops an object, lists it and pushes its children, until nothing is left on the stack.  There is no
result if that takes more than the given number of steps. -/
def walk (f : Forest) : Nat → List Ident → Option (List Ident)
  | _, [] => some []
  | 0, _ :: _ => none
  | n + 1, x :: stack => (f.walk n (f.children x ++ stack)).map (x :: ·)

/-- The walk lists the subtrees of what is on the stack, and takes a step for each object. -/
theorem walk_eq (hf : f.nodes.Acyclic) (n : Nat) {stack : List Ident} (hstack : ∀ x ∈ stack, x ∈ f.nodes) :
    f.walk n stack =
      if (stack.flatMap f.below).length ≤ n then some (stack.flatMap f.below) else none := by
  induction n generalizing stack with
  | zero =>
      cases stack with
      | nil => rfl
      | cons x stack => simp [walk, below_eq_cons hf (hstack x List.mem_cons_self)]
  | succ n ih =>
      cases stack with
      | nil => rfl
      | cons x stack =>
          rw [List.forall_mem_cons] at hstack
          have hnext : ∀ y ∈ f.children x ++ stack, y ∈ f.nodes := by
            intro y hy
            rcases List.mem_append.1 hy with hy | hy
            · exact NodeMap.mem_of_parent? (mem_children.1 hy).2
            · exact hstack.2 y hy
          have hlist : (x :: stack).flatMap f.below = x :: (f.children x ++ stack).flatMap f.below := by
            rw [List.flatMap_cons, below_eq_cons hf hstack.1, List.cons_append, List.flatMap_append]
          rw [walk, ih hnext, hlist, List.length_cons]
          split <;> simp_all

/-- **What the subtree of an object is, and when there is none.**  It is refused for what is not in the
forest, and for nothing else.  For an object the walk down from it ends after as many steps as there are
objects in the subtree, and lists the object and everything that has it among its ancestors, nothing
twice, and each object followed by the subtrees of its children, by place and then by identifier. -/
theorem subtree_lists (hf : ofMap m = .ok f) (id : Ident) :
    (∀ e, f.subtree id = .error e ↔ e = .unresolved id ∧ id ∉ f.nodes) ∧
    (id ∈ f.nodes → ∃ l, f.subtree id = .ok l ∧
      (∀ n, f.walk n [id] = if l.length ≤ n then some l else none) ∧ l.length ≤ f.size ∧
      l.Nodup ∧ (∀ y, y ∈ l ↔ y = id ∨ LeadsOn f.nodes.parent? y id) ∧
      ∀ x ∈ l, ∃ below : Ident → List Ident, (∀ c ∈ f.children x, f.subtree c = .ok (below c)) ∧
        f.subtree x = .ok (x :: (f.children x).flatMap below) ∧
        (f.children x).Pairwise f.nodes.Before ∧
        ∀ c, c ∈ f.children x ↔ f.nodes.parent? c = some x) := by
  have hacyclic : f.nodes.Acyclic := nodes_of_ofMap hf ▸ exists_ofMap_eq_ok_iff.1 ⟨f, hf⟩
  have hsubtree {x : Ident} (hx : x ∈ f.nodes) : f.subtree x = .ok (f.below x) :=
    if_pos (Std.ExtTreeMap.mem_iff_contains.1 hx)
  constructor
  · intro e
    by_cases hid : id ∈ f.nodes
    · simp [hsubtree hid, hid]
    · rw [subtree, if_neg fun hc => hid (Std.ExtTreeMap.mem_iff_contains.2 hc), Except.error.injEq,
        eq_comm]
      exact (and_iff_left hid).symm
  · intro hid
    refine ⟨f.below id, hsubtree hid, fun n => ?_, length_below_le hacyclic hid,
      nodup_below hacyclic id, fun y => ?_, fun x hx => ⟨f.below, fun c hc => ?_, ?_,
      f.pairwise_children x, fun c => ?_⟩⟩
    · rw [walk_eq hacyclic n (by simpa using hid), List.flatMap_singleton]
    · rw [mem_below hid, leads_iff]
    · exact hsubtree (NodeMap.mem_of_parent? (mem_children.1 hc).2)
    · have hxm : x ∈ f.nodes := NodeMap.mem_of_leads ((mem_below hid).1 hx) hid
      rw [hsubtree hxm, below_eq_cons hacyclic hxm]
    · have hxm : x ∈ f.nodes := NodeMap.mem_of_leads ((mem_below hid).1 hx) hid
      rw [mem_children]
      exact and_iff_right hxm

/-- Two branches of different heights, siblings of one place, and an object that is not there. -/
theorem subtree_lists_branches :
    let m := NodeMap.ofList [⟨some ⟨"ws"⟩, "T", ⟨"a"⟩, 0⟩, ⟨some ⟨"a"⟩, "T", ⟨"d"⟩, 1⟩,
      ⟨some ⟨"a"⟩, "T", ⟨"c"⟩, 1⟩, ⟨some ⟨"c"⟩, "T", ⟨"b"⟩, 0⟩, ⟨none, "T", ⟨"e"⟩, 0⟩]
    let l : List Ident := [⟨"a"⟩, ⟨"c"⟩, ⟨"b"⟩, ⟨"d"⟩]
    ∃ f, ofMap m = .ok f ∧ f.subtree ⟨"a"⟩ = .ok l ∧ f.walk 4 [⟨"a"⟩] = some l ∧
      f.walk 3 [⟨"a"⟩] = none ∧ LeadsOn f.nodes.parent? ⟨"b"⟩ ⟨"a"⟩ ∧
      f.subtree ⟨"ws"⟩ = .error (.unresolved ⟨"ws"⟩) := by
  intro m l
  obtain ⟨f, hf, hnodes, hl⟩ : ∃ f, ofMap m = .ok f ∧ (⟨"a"⟩ ∈ f.nodes ∧ ⟨"ws"⟩ ∉ f.nodes) ∧
      f.subtree ⟨"a"⟩ = .ok l := ⟨_, by rfl, by decide +kernel, by decide +kernel⟩
  obtain ⟨l', hl', hwalk, -, -, hmem, -⟩ := (subtree_lists hf ⟨"a"⟩).2 hnodes.1
  rw [hl] at hl'
  cases hl'
  refine ⟨f, hf, hl, hwalk 4, hwalk 3, ?_, ((subtree_lists hf ⟨"ws"⟩).1 _).2 ⟨rfl, hnodes.2⟩⟩
  exact ((hmem ⟨"b"⟩).1 (by decide)).resolve_left (by decide)

end Forest

end GraphDelta
