/-
**What a removal takes along.**

The graph of a workspace is not a forest: parents may be absent, and may run in a cycle.  What is below
an object can be collected all the same, with a stack and a set of what has been seen.  What comes up
for the second time is skipped; anything else is listed, and the objects that name it as their parent are
pushed.  Each object is pushed once at most, as it names one parent, which is listed once at most.  So
the collection ends, cycles or not, and what it lists is closed downwards: it is what a removal takes.

A removal takes objects, properties and marks of the same identifiers, and leaves the others as they
are.  What is left names no parent that is gone, as it would have been below that parent itself.

Main definitions:

* `Workspace.State.collect` — the collection, with a bound on the number of steps;
* `Workspace.State.waiting` — how many objects may still be pushed;
* `Workspace.State.Collected` — what a list holds that has been collected.

Main results:

* `Workspace.State.exists_collect_eq_some` — **the collection ends**, whatever parents do;
* `Workspace.State.exists_collect_below` — **it lists what a removal takes**;
* `Workspace.Transaction.remove_cascades` — **when a removal is accepted, and what it does**.
-/
import GraphDelta.Proofs.Phases

set_option autoImplicit false

namespace GraphDelta.Workspace

variable {id x y : Ident} {n k : Nat}

namespace State

variable {s : State} {seen : Std.ExtTreeSet Ident} {stack l : List Ident}

/-! ### Collecting -/

/-- The objects that name `id` as their parent, in ascending order. -/
def namers (s : State) (id : Ident) : List Ident :=
  s.nodes.keys.filter fun x => s.nodes.parent? x == some id

/-- Pops an identifier and skips it, if it has been seen, or else lists it and pushes what names it as
its parent, until nothing is left on the stack.  There is no result if that takes more than the given
number of steps. -/
def collect (s : State) : Nat → Std.ExtTreeSet Ident → List Ident → Option (List Ident)
  | _, _, [] => some []
  | 0, _, _ :: _ => none
  | n + 1, seen, x :: stack =>
    if seen.contains x then s.collect n seen stack
    else (s.collect n (seen.insert x) ((s.namers x).reverse ++ stack)).map (x :: ·)

/-- The number of objects whose parent has not been seen. -/
def waiting (s : State) (seen : Std.ExtTreeSet Ident) : Nat :=
  s.nodes.keys.countP fun x => (s.nodes.parent? x).any fun p => !seen.contains p

theorem mem_namers : y ∈ s.namers x ↔ s.nodes.parent? y = some x := by
  rw [namers, List.mem_filter, beq_iff_eq, Std.ExtTreeMap.mem_keys]
  exact and_iff_right_of_imp NodeMap.mem_of_parent?

/-- When an identifier has been seen, what names it as its parent does not wait any more. -/
theorem waiting_insert (hx : x ∉ seen) :
    s.waiting seen = (s.namers x).length + s.waiting (seen.insert x) := by
  rw [waiting, waiting, namers, ← List.countP_eq_length_filter]
  induction s.nodes.keys with
  | nil => rfl
  | cons y ids ih =>
      rw [List.countP_cons, List.countP_cons, List.countP_cons, ih]
      have hy : (if (s.nodes.parent? y).any (fun p => !seen.contains p) then 1 else 0) =
          (if s.nodes.parent? y == some x then 1 else 0) +
          if (s.nodes.parent? y).any (fun p => !(seen.insert x).contains p) then 1 else 0 := by
        cases s.nodes.parent? y with
        | none => rfl
        | some p =>
            by_cases hp : p = x
            · subst hp
              simp [hx]
            · simp [hp, Ne.symm hp]
      omega

/-- What has been collected from a stack: nothing twice and nothing that had been seen, only what leads to
something on the stack, all that was on it, and with everything what names it as its parent. -/
structure Collected (s : State) (seen : Std.ExtTreeSet Ident) (stack l : List Ident) : Prop where
  nodup : l.Nodup
  fresh : ∀ y ∈ l, y ∉ seen
  leads : ∀ y ∈ l, ∃ x ∈ stack, Leads s.nodes.parent? y x
  mem : ∀ x ∈ stack, x ∈ l ∨ x ∈ seen
  closed : ∀ x ∈ l, ∀ y, s.nodes.parent? y = some x → y ∈ l ∨ y ∈ seen

namespace Collected

theorem skip (h : Collected s seen stack l) (hx : x ∈ seen) : Collected s seen (x :: stack) l where
  nodup := h.nodup
  fresh := h.fresh
  leads y hy := by
    obtain ⟨z, hz, hyz⟩ := h.leads y hy
    exact ⟨z, List.mem_cons_of_mem x hz, hyz⟩
  mem := List.forall_mem_cons.2 ⟨.inr hx, h.mem⟩
  closed := h.closed

theorem mem_of_mem_insert (h : y ∈ l ∨ y ∈ seen.insert x) : y ∈ x :: l ∨ y ∈ seen := by
  rw [Std.ExtTreeSet.mem_insert, Std.LawfulEqOrd.compare_eq_iff_eq] at h
  rcases h with hl | rfl | hseen
  · exact .inl (List.mem_cons_of_mem x hl)
  · exact .inl List.mem_cons_self
  · exact .inr hseen

theorem list (h : Collected s (seen.insert x) ((s.namers x).reverse ++ stack) l) (hx : x ∉ seen) :
    Collected s seen (x :: stack) (x :: l) where
  nodup := List.nodup_cons.2 ⟨fun hxl => h.fresh x hxl Std.ExtTreeSet.mem_insert_self, h.nodup⟩
  fresh := by
    rw [List.forall_mem_cons]
    exact ⟨hx, fun y hy hseen => h.fresh y hy (Std.ExtTreeSet.mem_insert.2 (.inr hseen))⟩
  leads := by
    rw [List.forall_mem_cons]
    refine ⟨⟨x, List.mem_cons_self, .refl x⟩, fun y hy => ?_⟩
    obtain ⟨z, hz, hyz⟩ := h.leads y hy
    rcases List.mem_append.1 hz with hz | hz
    · have hzx : s.nodes.parent? z = some x := mem_namers.1 (List.mem_reverse.1 hz)
      exact ⟨x, List.mem_cons_self, hyz.trans (.single hzx)⟩
    · exact ⟨z, List.mem_cons_of_mem x hz, hyz⟩
  mem := by
    rw [List.forall_mem_cons]
    exact ⟨.inl List.mem_cons_self, fun z hz => mem_of_mem_insert (h.mem z (List.mem_append_right _ hz))⟩
  closed := by
    rw [List.forall_mem_cons]
    constructor
    · intro y hy
      exact mem_of_mem_insert (h.mem y (List.mem_append_left _ (List.mem_reverse.2 (mem_namers.2 hy))))
    · intro z hz y hy
      exact mem_of_mem_insert (h.closed z hz y hy)

theorem mem_iff (h : Collected s ∅ [x] l) : y ∈ l ↔ Leads s.nodes.parent? y x := by
  constructor
  · intro hy
    obtain ⟨z, hz, hyz⟩ := h.leads y hy
    exact List.mem_singleton.1 hz ▸ hyz
  · rintro ⟨k, hk⟩
    induction k generalizing y with
    | zero =>
        rw [Option.some_inj.1 hk]
        exact (h.mem x List.mem_cons_self).resolve_right Std.ExtTreeSet.not_mem_empty
    | succ k ih =>
        obtain ⟨p, hp, hpx⟩ := Option.bind_eq_some_iff.1 hk
        exact (h.closed p (ih hpx) y hp).resolve_right Std.ExtTreeSet.not_mem_empty

end Collected

/-- **The collection ends**: it takes one step for what is on the stack, and one for each object that is
pushed. -/
theorem exists_collect_eq_some {b : Nat} (hb : stack.length + s.waiting seen ≤ b) :
    ∃ l, Collected s seen stack l ∧ ∀ n, b ≤ n → s.collect n seen stack = some l := by
  induction b generalizing seen stack with
  | zero =>
      cases stack with
      | nil => exact ⟨[], by constructor <;> simp, fun n _ => by cases n <;> rfl⟩
      | cons x stack => simp at hb
  | succ b ih =>
      cases stack with
      | nil => exact ⟨[], by constructor <;> simp, fun n _ => by cases n <;> rfl⟩
      | cons x stack =>
          rw [List.length_cons] at hb
          by_cases hx : x ∈ seen
          · have hroom : stack.length + s.waiting seen ≤ b := by omega
            obtain ⟨l, hcollected, hl⟩ := ih hroom
            refine ⟨l, hcollected.skip hx, fun n hn => ?_⟩
            obtain ⟨n, rfl⟩ : ∃ i, n = i + 1 := ⟨n - 1, by omega⟩
            rw [collect, if_pos (Std.ExtTreeSet.mem_iff_contains.1 hx), hl n (by omega)]
          · have hroom : ((s.namers x).reverse ++ stack).length + s.waiting (seen.insert x) ≤ b := by
              rw [waiting_insert hx] at hb
              rw [List.length_append, List.length_reverse]
              omega
            obtain ⟨l, hcollected, hl⟩ := ih hroom
            refine ⟨x :: l, hcollected.list hx, fun n hn => ?_⟩
            obtain ⟨n, rfl⟩ : ∃ i, n = i + 1 := ⟨n - 1, by omega⟩
            rw [collect, if_neg fun hc => hx (Std.ExtTreeSet.mem_iff_contains.2 hc), hl n (by omega)]
            rfl

/-- **The collection from a present object lists what a removal takes**, in no more steps than there are
objects and one. -/
theorem exists_collect_below (hid : id ∈ s.nodes) : ∃ l, l.Nodup ∧ (∀ x, x ∈ l ↔ x ∈ s.below id) ∧
    ∀ n, s.nodes.size < n → s.collect n ∅ [id] = some l := by
  have hwaiting : s.waiting ∅ ≤ s.nodes.size := by
    rw [← Std.ExtTreeMap.length_keys]
    exact List.countP_le_length
  have hb : [id].length + s.waiting ∅ ≤ s.nodes.size + 1 := by
    rw [List.length_singleton]
    omega
  obtain ⟨l, hcollected, hl⟩ := exists_collect_eq_some hb
  refine ⟨l, hcollected.nodup, fun x => ?_, hl⟩
  rw [hcollected.mem_iff, mem_below]
  exact (and_iff_right hid).symm

end State

/-! ### Removing -/

namespace Transaction

variable {t t' : Transaction} {gone : Ident → Prop} {parent : Option Ident}

theorem remove_refused_iff {e : Refusal} : (t.remove parent id).1 = .error e ↔
    e = .unknown id ∧ id ∉ t.state.nodes ∨
    ∃ n, t.state.nodes[id]? = some n ∧ n.parent ≠ parent ∧ e = .wrongParent id parent n.parent := by
  rw [remove]
  cases hn : t.state.nodes[id]? with
  | none => simp [NodeMap.mem_iff_exists, hn, eq_comm]
  | some n =>
      by_cases hp : n.parent = parent
      · simp [NodeMap.mem_iff_exists, hn, hp]
      · simp [NodeMap.mem_iff_exists, hn, hp, eq_comm (a := e)]

namespace Loses

theorem of_gone (h : Loses gone t t') (hx : gone x) :
    t'.state.nodes[x]? = none ∧ x ∉ t'.created ∧
      ∀ k : Property.Key, k.owner = x → t'.state.properties[k]? = none := by
  refine ⟨?_, fun hc => ((h.created x).1 hc).2 hx, ?_⟩
  · exact Option.eq_none_iff_forall_ne_some.2 fun n hn => ((h.nodes x n).1 hn).2 hx
  · rintro k rfl
    exact Option.eq_none_iff_forall_ne_some.2 fun p hp => ((h.properties k p).1 hp).2 hx

theorem of_not_gone (h : Loses gone t t') (hx : ¬ gone x) :
    t'.state.nodes[x]? = t.state.nodes[x]? ∧ (x ∈ t'.created ↔ x ∈ t.created) ∧
      ∀ k : Property.Key, k.owner = x → t'.state.properties[k]? = t.state.properties[k]? := by
  refine ⟨Option.ext fun n => ?_, ?_, ?_⟩
  · rw [h.nodes, and_iff_left hx]
  · rw [h.created, and_iff_left hx]
  · rintro k rfl
    exact Option.ext fun p => by rw [h.properties, and_iff_left hx]

end Loses

/-- **When a removal is accepted, and what it does.**  It is accepted for a present object under the
parent that is named, and otherwise refused, with nothing changed.  It takes the object and the present
objects from which climbing over present objects leads to it, with their properties and marks, and
nothing else; and what is left does not hang under what is gone. -/
theorem remove_cascades (t : Transaction) (com : State) (parent : Option Ident) (id : Ident) :
    let w : Workspace := ⟨com, some t⟩
    let gone := fun x => x ∈ t.state.nodes ∧ Leads t.state.nodes.presentParent? x id
    ((sink (.remove parent id) w).1 = .ok () ↔
      ∃ n, t.state.nodes[id]? = some n ∧ n.parent = parent) ∧
    (∀ e, (sink (.remove parent id) w).1 = .error e → (sink (.remove parent id) w).2 = w ∧
      (e = .unknown id ∧ id ∉ t.state.nodes ∨
        ∃ n, t.state.nodes[id]? = some n ∧ n.parent ≠ parent ∧ e = .wrongParent id parent n.parent)) ∧
    ((sink (.remove parent id) w).1 = .ok () → ∃ t',
      (sink (.remove parent id) w).2 = ⟨com, some t'⟩ ∧ gone id ∧
      (∃ l, l.Nodup ∧ (∀ x, x ∈ l ↔ gone x) ∧
        ∀ n, t.state.nodes.size < n → t.state.collect n ∅ [id] = some l) ∧
      (∀ x, gone x → t'.state.nodes[x]? = none ∧ x ∉ t'.created ∧
        ∀ k : Property.Key, k.owner = x → t'.state.properties[k]? = none) ∧
      (∀ x, ¬ gone x → t'.state.nodes[x]? = t.state.nodes[x]? ∧ (x ∈ t'.created ↔ x ∈ t.created) ∧
        ∀ k : Property.Key, k.owner = x → t'.state.properties[k]? = t.state.properties[k]?) ∧
      ∀ x p, t'.state.nodes.parent? x = some p → ¬ gone p) := by
  intro w gone
  have hsink : sink (.remove parent id) w =
      ((t.remove parent id).1, ⟨com, some (t.remove parent id).2⟩) :=
    sink_within (c := .remove parent id) rfl com t
  rw [hsink]
  rcases hremove : t.remove parent id with ⟨e | u, t'⟩
  · cases eq_of_remove_refused hremove
    have hrefused := remove_refused_iff.1 (congrArg Prod.fst hremove)
    have hno : ¬ ∃ n, t.state.nodes[id]? = some n ∧ n.parent = parent := by
      rintro ⟨n, hn, hp⟩
      simp [remove, hn, hp] at hremove
    refine ⟨iff_of_false (by simp) hno, ?_, by simp⟩
    intro e' he
    cases he
    exact ⟨rfl, hrefused⟩
  · obtain ⟨n, hn, hp, -⟩ := remove_eq_ok_iff.1 hremove
    have hid : id ∈ t.state.nodes := NodeMap.mem_of_getElem?_eq_some hn
    have hgone (x : Ident) : Leads t.state.nodes.parent? x id ↔ gone x :=
      NodeMap.leads_parent?_iff hid
    have hloses : Loses gone t t' := (loses_of_remove hremove).congr hgone
    obtain ⟨l, hnodup, hl, hcollect⟩ := State.exists_collect_below hid
    refine ⟨iff_of_true rfl ⟨n, hn, hp⟩, by simp, fun _ => ⟨t', rfl, ⟨hid, .refl id⟩,
      ⟨l, hnodup, fun x => ?_, hcollect⟩, fun x => hloses.of_gone, fun x => hloses.of_not_gone,
      fun x p hxp hp => ?_⟩⟩
    · rw [hl, State.mem_below, and_iff_right hid, hgone]
    · obtain ⟨hxp, hx⟩ := hloses.parent?.1 hxp
      exact hx ((hgone x).1 ((Leads.single hxp).trans ((hgone p).2 hp)))

/-- The removed object is one of two that are each other's parents.  A third one hangs below them, and
the parent of a fourth is absent. -/
theorem remove_cascades_circle :
    let nodes : List Node := [⟨some ⟨"b"⟩, "T", ⟨"a"⟩, 0⟩, ⟨some ⟨"a"⟩, "T", ⟨"b"⟩, 0⟩,
      ⟨some ⟨"b"⟩, "T", ⟨"c"⟩, 0⟩, ⟨some ⟨"x"⟩, "T", ⟨"d"⟩, 0⟩]
    let properties : List Property := [.point ⟨"c"⟩ "p" .string (.ofText "1"),
      .point ⟨"d"⟩ "p" .string (.ofText "1")]
    let marked : List Ident := [⟨"c"⟩, ⟨"d"⟩]
    let t : Transaction := ⟨.ofSnapshot ⟨nodes, properties⟩, .ofList marked⟩
    let w : Workspace := ⟨.empty, some t⟩
    (∃ t', sink (.remove (some ⟨"b"⟩) ⟨"a"⟩) w = (.ok (), ⟨.empty, some t'⟩) ∧
      t.state.collect 5 ∅ [⟨"a"⟩] = some [⟨"a"⟩, ⟨"b"⟩, ⟨"c"⟩] ∧
      t'.state.nodes[(⟨"c"⟩ : Ident)]? = none ∧ ⟨"c"⟩ ∉ t'.created ∧
      t'.state.properties[(⟨⟨"c"⟩, "p"⟩ : Property.Key)]? = none ∧
      t'.state.nodes[(⟨"d"⟩ : Ident)]? = some ⟨some ⟨"x"⟩, "T", ⟨"d"⟩, 0⟩ ∧ ⟨"d"⟩ ∈ t'.created ∧
      t'.state.properties[(⟨⟨"d"⟩, "p"⟩ : Property.Key)]? =
        some (.point ⟨"d"⟩ "p" .string (.ofText "1"))) ∧
    sink (.remove none ⟨"a"⟩) w = (.error (.wrongParent ⟨"a"⟩ none (some ⟨"b"⟩)), w) := by
  intro nodes properties marked t w
  obtain ⟨haccepted, -, hdone⟩ := remove_cascades t .empty (some ⟨"b"⟩) ⟨"a"⟩
  have hok : (sink (.remove (some ⟨"b"⟩) ⟨"a"⟩) w).1 = .ok () :=
    haccepted.2 ⟨⟨some ⟨"b"⟩, "T", ⟨"a"⟩, 0⟩, by decide +kernel, rfl⟩
  obtain ⟨t', ht', -, ⟨l, -, hl, hcollect⟩, hgone, hleft, -⟩ := hdone hok
  have hlist : t.state.collect 5 ∅ [⟨"a"⟩] = some [⟨"a"⟩, ⟨"b"⟩, ⟨"c"⟩] := by decide +kernel
  rw [hcollect 5 (by decide +kernel)] at hlist
  cases hlist
  obtain ⟨hc, hcmark, hcproperty⟩ := hgone ⟨"c"⟩ ((hl ⟨"c"⟩).1 (by decide))
  obtain ⟨hd, hdmark, hdproperty⟩ := hleft ⟨"d"⟩ fun hd => absurd ((hl ⟨"d"⟩).2 hd) (by decide)
  refine ⟨⟨t', Prod.ext hok ht', hcollect 5 (by decide +kernel), hc, hcmark, hcproperty _ rfl, ?_, ?_, ?_⟩,
    ?_⟩
  · rw [hd]
    decide +kernel
  · rw [hdmark]
    decide +kernel
  · rw [hdproperty _ rfl]
    decide +kernel
  · have hwrong : (sink (.remove none ⟨"a"⟩) w).1 = .error (.wrongParent ⟨"a"⟩ none (some ⟨"b"⟩)) := by
      decide +kernel
    exact Prod.ext hwrong ((remove_cascades t .empty none ⟨"a"⟩).2.1 _ hwrong).1

end Transaction

end GraphDelta.Workspace
