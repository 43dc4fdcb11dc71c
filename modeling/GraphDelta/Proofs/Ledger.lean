/-
**Changes that are entered one by one.**

A difference says at once what changes.  A ledger is how the changes come together: they are entered one
after the other, and an index of the identifiers that are queued for addition keeps the same object from
being queued twice.  The index is a second account of the additions, and it has to keep in step with
whatever happens to them.

Main definitions:

* `Ledger` — changes with an index of the additions;
* `Ledger.enqueue`, `Ledger.enterRemovals`, `Ledger.enterEdit` — what is entered;
* `Ledger.omitRoot` — the top of the additions is left out;
* `Ledger.Indexed` — the index and the additions agree, and no addition is made twice;
* `Ledger.Balanced` — no entry of any kind is made twice.

Main results:

* `Ledger.additions_enqueueAll` — of several identifiers those are queued that were not before;
* `Ledger.Indexed.enqueue`, `Ledger.Indexed.omitRoot` — **the index keeps in step**;
* `Ledger.Balanced.perm`, `Ledger.Balanced.omitRoot` — and nothing is entered twice.
-/
import GraphDelta.Proofs.Edits
import GraphDelta.Proofs.Shape

set_option autoImplicit false

namespace GraphDelta

variable {new : NodeMap}

/-! ### Ledgers -/

/-- Changes with an index of the additions. -/
structure Ledger where
  additions : List Node
  removals : List Node
  edits : List Property
  /-- The identifiers that are queued for addition. -/
  queued : Std.ExtTreeSet Ident

namespace Ledger

variable {l : Ledger}

/-- The ledger without entries. -/
def empty : Ledger := ⟨[], [], [], ∅⟩

/-- The changes, without the index. -/
def delta (l : Ledger) : Delta := ⟨l.additions, l.removals, l.edits⟩

/-- Queues an addition, unless its identifier is queued already. -/
def enqueue (l : Ledger) (n : Node) : Ledger :=
  if l.queued.contains n.id then l
  else { l with additions := l.additions ++ [n], queued := l.queued.insert n.id }

/-- Queues the objects of some identifiers. -/
def enqueueAll (new : NodeMap) (ids : List Ident) (l : Ledger) : Ledger :=
  ids.foldl (fun l id => new[id]?.elim l l.enqueue) l

/-- Enters removals. -/
def enterRemovals (l : Ledger) (ns : List Node) : Ledger := { l with removals := l.removals ++ ns }

/-- Enters an edit, if there is one. -/
def enterEdit (l : Ledger) (e : Option Property) : Ledger := { l with edits := l.edits ++ e.toList }

/-- Leaves out the first addition under `place`, and its edits, and tells whether there is one; its
children among the additions are hung under `newRoot` if one is given. -/
def omitRoot (l : Ledger) (place : Ident) (newRoot : Option Ident) : Bool × Ledger :=
  match l.additions.find? (·.isChildOf place) with
  | none => (false, l)
  | some root =>
    let rest := l.additions.eraseP (·.isChildOf place)
    (true, { l with
      additions := match newRoot with
        | some r => rest.map (Delta.rehang root.id r)
        | none => rest
      edits := l.edits.filter (·.owner != root.id)
      queued := l.queued.erase root.id })

/-! ### The index -/

/-- The index holds the identifiers of the additions, none of which occurs twice. -/
structure Indexed (l : Ledger) : Prop where
  nodup : (l.additions.map Node.id).Nodup
  contains_queued : ∀ id, l.queued.contains id = true ↔ id ∈ l.additions.map Node.id

theorem indexed_empty : empty.Indexed where
  nodup := .nil
  contains_queued id := by simp [empty]

/-- Nothing is queued twice, and what is queued is in the index. -/
theorem Indexed.enqueue (h : l.Indexed) (n : Node) : (l.enqueue n).Indexed := by
  rw [Ledger.enqueue]
  split
  · exact h
  · rename_i hn
    rw [h.contains_queued] at hn
    constructor
    · rw [List.map_append, List.nodup_append]
      refine ⟨h.nodup, List.nodup_singleton n.id, ?_⟩
      rintro a ha b hb rfl
      exact hn (List.mem_singleton.1 hb ▸ ha)
    · intro id
      rw [Std.ExtTreeSet.contains_insert, Bool.or_eq_true, beq_iff_eq, h.contains_queued,
        Std.LawfulEqOrd.compare_eq_iff_eq, List.map_append, List.mem_append, or_comm]
      simp [eq_comm]

theorem Indexed.enqueueAll (h : l.Indexed) (new : NodeMap) (ids : List Ident) :
    (enqueueAll new ids l).Indexed := by
  refine List.foldlRecOn (motive := Indexed) ids _ h fun l hl id _ => ?_
  cases new[id]? with
  | none => exact hl
  | some n => exact hl.enqueue n

theorem Indexed.perm (h : l.Indexed) {ns : List Node} (hns : ns.Perm l.additions) :
    Indexed { l with additions := ns } where
  nodup := (hns.map Node.id).nodup_iff.2 h.nodup
  contains_queued id := (h.contains_queued id).trans (hns.map Node.id).mem_iff.symm

/-- Entries are left out like changes of a difference. -/
theorem omitRoot_eq (l : Ledger) (place : Ident) (newRoot : Option Ident) :
    (l.omitRoot place newRoot).1 = (l.delta.omitRoot? place newRoot).isSome ∧
      (l.omitRoot place newRoot).2.delta = (l.delta.omitRoot? place newRoot).getD l.delta := by
  rw [omitRoot, Delta.omitRoot?, delta]
  cases l.additions.find? (·.isChildOf place) with
  | none => exact ⟨rfl, rfl⟩
  | some root => exact ⟨rfl, rfl⟩

theorem Indexed.omitRoot (h : l.Indexed) (place : Ident) (newRoot : Option Ident) :
    (l.omitRoot place newRoot).2.Indexed := by
  cases hroot : l.additions.find? (·.isChildOf place) with
  | none =>
      rw [Ledger.omitRoot, hroot]
      exact h
  | some root =>
      obtain ⟨before, after, hsplit, hrest⟩ := exists_append_of_find? hroot
      have hids : (l.omitRoot place newRoot).2.additions.map Node.id = (before ++ after).map Node.id := by
        rw [Ledger.omitRoot, hroot, ← hrest]
        cases newRoot with
        | none => rfl
        | some r =>
            change ((l.additions.eraseP (·.isChildOf place)).map (Delta.rehang root.id r)).map Node.id = _
            rw [List.map_map]
            exact List.map_congr_left fun a _ => Delta.id_rehang root.id r a
      have hqueued : (l.omitRoot place newRoot).2.queued = l.queued.erase root.id := by
        rw [Ledger.omitRoot, hroot]
      have hnodup := h.nodup
      rw [hsplit, List.map_append, List.map_cons, List.nodup_middle, List.nodup_cons,
        ← List.map_append] at hnodup
      constructor
      · rw [hids]
        exact hnodup.2
      · intro id
        rw [hids, hqueued, Std.ExtTreeSet.contains_erase, Bool.and_eq_true, h.contains_queued, hsplit,
          List.map_append, List.map_cons, List.mem_append, List.mem_cons, or_left_comm,
          ← List.mem_append, ← List.map_append]
        constructor
        · rintro ⟨hne, rfl | hid⟩
          · simp at hne
          · exact hid
        · intro hid
          have hne : root.id ≠ id := fun heq => hnodup.1 (heq ▸ hid)
          exact ⟨by simpa using hne, .inr hid⟩

/-! ### Several identifiers -/

/-- Of several identifiers of objects those are queued that were not before, each once. -/
theorem additions_enqueueAll (hnew : new.Filed) {ids : List Ident} (hids : ∀ id ∈ ids, id ∈ new)
    (l : Ledger) : (enqueueAll new ids l).additions =
      l.additions ++ (unseen l.queued ids).filterMap (new[·]?) := by
  induction ids generalizing l with
  | nil => rw [unseen, List.filterMap_nil, List.append_nil, enqueueAll, List.foldl_nil]
  | cons id ids ih =>
      obtain ⟨n, hn⟩ := NodeMap.mem_iff_exists.1 (hids id List.mem_cons_self)
      have hstep : enqueueAll new (id :: ids) l = enqueueAll new ids (l.enqueue n) := by
        rw [enqueueAll, List.foldl_cons, hn]
        rfl
      rw [hstep, ih fun x hx => hids x (List.mem_cons_of_mem id hx), unseen, enqueue, hnew id n hn]
      split
      · rfl
      · rw [List.filterMap_cons, hn, List.append_assoc]
        rfl

theorem enqueueAll_append (new : NodeMap) (ids ids' : List Ident) (l : Ledger) :
    enqueueAll new (ids ++ ids') l = enqueueAll new ids' (enqueueAll new ids l) := List.foldl_append

theorem enqueueAll_frame (new : NodeMap) (ids : List Ident) (l : Ledger) :
    (enqueueAll new ids l).removals = l.removals ∧ (enqueueAll new ids l).edits = l.edits := by
  refine List.foldlRecOn (motive := fun k : Ledger => k.removals = l.removals ∧ k.edits = l.edits) ids _
    ⟨rfl, rfl⟩ fun k hk id _ => ?_
  cases new[id]? with
  | none => exact hk
  | some n =>
      change (k.enqueue n).removals = _ ∧ (k.enqueue n).edits = _
      rw [enqueue]
      split
      · exact hk
      · exact hk

/-! ### Nothing twice -/

/-- The index and the additions agree, no object is removed twice, no key is edited twice, and every
edit tells a change. -/
structure Balanced (l : Ledger) : Prop extends Indexed l where
  nodup_removals : (l.removals.map Node.id).Nodup
  nodup_edits : (l.edits.map Property.key).Nodup
  isEdit : ∀ e ∈ l.edits, e.isEdit = true

theorem balanced_empty : empty.Balanced where
  toIndexed := indexed_empty
  nodup_removals := .nil
  nodup_edits := .nil
  isEdit _ he := absurd he List.not_mem_nil

theorem Balanced.perm (h : l.Balanced) {ns : List Node} (hns : ns.Perm l.additions) :
    Balanced { l with additions := ns } where
  toIndexed := h.toIndexed.perm hns
  nodup_removals := h.nodup_removals
  nodup_edits := h.nodup_edits
  isEdit := h.isEdit

theorem Balanced.omitRoot (h : l.Balanced) (place : Ident) (newRoot : Option Ident) :
    (l.omitRoot place newRoot).2.Balanced := by
  have hedits : (l.omitRoot place newRoot).2.edits.Sublist l.edits := by
    rw [Ledger.omitRoot]
    split
    · exact .refl _
    · exact List.filter_sublist
  have hremovals : (l.omitRoot place newRoot).2.removals = l.removals := by
    rw [Ledger.omitRoot]
    split <;> rfl
  exact {
    toIndexed := h.toIndexed.omitRoot place newRoot
    nodup_removals := hremovals ▸ h.nodup_removals
    nodup_edits := h.nodup_edits.sublist (hedits.map Property.key)
    isEdit := fun e he => h.isEdit e (hedits.subset he) }

end Ledger

end GraphDelta
