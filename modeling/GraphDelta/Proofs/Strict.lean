/-
**Replaying into a strict sink.**

A workspace takes an object whether its parent is there or not.  A strict sink does not: it takes an
object only after its parent, as long as the parent is one of the objects that it expects.  Between
snapshots whose objects form trees, and in which no object stays in its place under a parent that comes
or goes, a replay never needs the leniency: at each removal the object is still there under the parent
that is named, and at each addition the object is not there and its parent is, be it that the parent
was added before, or that it has survived the removals.

Main definitions:

* `Workspace.Transaction.Admits` — what a strict sink asks of a call;
* `Workspace.strictSink` — a workspace that takes an object only after its parent.

Main results:

* `Workspace.strictSink_send_eq` — a strict sink does what a workspace does as long as every call is
  admitted;
* `Workspace.Transaction.exists_admits_removal`, `Workspace.Transaction.exists_admits_addition` —
  **every removal and every addition is admitted** in the state in which it comes;
* `Comparison.replay_suits_strict_sink` — **a replay suits a strict sink**.
-/
import GraphDelta.Proofs.Convergence
import GraphDelta.Proofs.Depth

set_option autoImplicit false

namespace GraphDelta

variable {expected : NodeMap} {call : Call} {calls before after : List Call} {w : Workspace}

/-! ### Strict sinks -/

namespace Workspace

/-- What a strict sink asks of a call.  An object that is removed is there, under the parent that is
named.  An object that is added is not there, and its parent is, if that is one of the expected
objects. -/
def Transaction.Admits (expected : NodeMap) (t : Transaction) : Call → Prop
  | .remove parent id => ∃ n, t.state.nodes[id]? = some n ∧ n.parent = parent
  | .add parent _ id _ =>
    id ∉ t.state.nodes ∧ ∀ p, parent = some p → p ∈ expected → p ∈ t.state.nodes
  | _ => True

/-- A workspace that refuses an addition as long as its parent is one of the expected objects and not
there. -/
def strictSink (expected : NodeMap) : Sink Workspace := fun c w =>
  match c, w.pending with
  | .add (some p) _ _ _, some t =>
    if expected.contains p && !t.state.nodes.contains p then (.error (.unknown p), w) else sink c w
  | _, _ => sink c w

/-- A strict sink does what a workspace does with a call that it admits. -/
theorem strictSink_eq (h : ∀ t, w.pending = some t → t.Admits expected call) :
    strictSink expected call w = sink call w := by
  unfold strictSink
  split
  · rename_i p tag id index t ht
    obtain ⟨-, hparent⟩ := h t ht
    refine if_neg ?_
    rw [Bool.and_eq_true, Bool.not_eq_true', Bool.eq_false_iff, ← Std.ExtTreeMap.mem_iff_contains,
      ne_eq, ← Std.ExtTreeMap.mem_iff_contains]
    exact fun hp => hp.2 (hparent p rfl hp.1)
  · rfl

/-- **A strict sink does what a workspace does** as long as every call is admitted in the state in
which it comes. -/
theorem strictSink_send_eq
    (h : ∀ before call after com t, calls = before ++ call :: after →
      sink.send before w = (.ok (), ⟨com, some t⟩) → t.Admits expected call) :
    (strictSink expected).send calls w = sink.send calls w := by
  induction calls generalizing w with
  | nil => rfl
  | cons c calls ih =>
      have hfirst : strictSink expected c w = sink c w := by
        refine strictSink_eq fun t ht => h [] c calls w.committed t rfl ?_
        rw [← ht]
        rfl
      rw [Sink.send, Sink.send, hfirst]
      rcases hc : sink c w with ⟨e | u, w'⟩
      · rfl
      · refine ih ?_
        intro before call after com t hcalls hsend
        refine h (c :: before) call after com t (by rw [hcalls, List.cons_append]) ?_
        rw [Sink.send, hc]
        exact hsend

theorem send_begin {com : State} {t : Transaction} (hcalls : ∀ c ∈ calls, c.isControl = false)
    (h : Transaction.run calls ⟨com, ∅⟩ = (.ok (), t)) :
    sink.send (.begin :: calls) ⟨com, none⟩ = (.ok (), ⟨com, some t⟩) := by
  have hbegin : sink .begin ⟨com, none⟩ = (.ok (), ⟨com, some ⟨com, ∅⟩⟩) := rfl
  rw [Sink.send, hbegin]
  simp only [send_within hcalls, h]

end Workspace

/-! ### The calls of a replay -/

variable {old new : Snapshot} {d : Delta} {l rs rs' : List Node} {n r : Node}

theorem append_eq_append_cons {α : Type} {xs ys pre post : List α} {a : α}
    (h : xs ++ ys = pre ++ a :: post) :
    (∃ rest, xs = pre ++ a :: rest) ∨ ∃ mid, pre = xs ++ mid ∧ ys = mid ++ a :: post := by
  rcases List.append_eq_append_iff.1 h with ⟨mid, hpre, hys⟩ | ⟨rest, hxs, hrest⟩
  · exact .inr ⟨mid, hpre, hys⟩
  · rcases List.cons_eq_append_iff.1 hrest with ⟨rfl, hys⟩ | ⟨rest', rfl, -⟩
    · exact .inr ⟨[], by rw [List.append_nil, hxs, List.append_nil], hys⟩
    · exact .inl ⟨rest', hxs⟩

theorem map_eq_append_cons {α β : Type} {f : α → β} {xs : List α} {pre post : List β} {b : β}
    (h : xs.map f = pre ++ b :: post) :
    ∃ ys a zs, xs = ys ++ a :: zs ∧ pre = ys.map f ∧ b = f a := by
  obtain ⟨ys, rest, rfl, hpre, hrest⟩ := List.map_eq_append_iff.1 h
  obtain ⟨a, zs, rfl, hb, -⟩ := List.map_eq_cons_iff.1 hrest
  exact ⟨ys, a, zs, rfl, hpre.symm, hb.symm⟩

theorem Property.isEdit_call (mode : Replay.Mode) (p : Property) :
    (p.call mode).isEdit = true := by
  cases mode <;> rfl

theorem Delta.calls_cases {mode : Replay.Mode} (h : d.calls mode l = before ++ call :: after)
    (hcall : call.isEdit = false) :
    (∃ rs r rs', d.removals = rs ++ r :: rs' ∧ before = rs.map Node.removal ∧ call = r.removal) ∨
    ∃ rs n rs', l = rs ++ n :: rs' ∧
      before = d.removals.map Node.removal ++ rs.map Node.addition ∧ call = n.addition := by
  rcases append_eq_append_cons h with ⟨rest, hchanges⟩ | ⟨mid, -, hedits⟩
  · rcases append_eq_append_cons hchanges with ⟨rest', hremovals⟩ | ⟨mid, hbefore, hadditions⟩
    · obtain ⟨rs, r, rs', hr, hpre, hcallr⟩ := map_eq_append_cons hremovals
      exact .inl ⟨rs, r, rs', hr, hpre, hcallr⟩
    · obtain ⟨rs, n, rs', hn, hpre, hcalln⟩ := map_eq_append_cons hadditions
      exact .inr ⟨rs, n, rs', hn, hpre ▸ hbefore, hcalln⟩
  · obtain ⟨ps, p, qs, -, -, rfl⟩ := map_eq_append_cons hedits
    rw [p.isEdit_call mode] at hcall
    cases hcall

/-! ### Every structural call is admitted -/

namespace Workspace.Transaction

/-- **A removal is admitted** after the ones in front of it: none of those takes the object. -/
theorem exists_admits_removal (hd : Delta.between (.ofSnapshot old) (.ofSnapshot new) = .ok d)
    (h : d.removals = rs ++ r :: rs') :
    ∃ t, t.Admits expected r.removal ∧ run (rs.map Node.removal) ⟨.ofSnapshot old, ∅⟩ = (.ok (), t) := by
  have ho : (Catalog.ofSnapshot old).nodes.Filed := NodeMap.filed_ofList old.nodes
  have hr : r ∈ d.removals := h ▸ List.mem_append_right rs List.mem_cons_self
  have hpair := Delta.pairwise_removals ho hd
  rw [h, List.pairwise_append] at hpair
  obtain ⟨t, ht, hloses⟩ := exists_loses hd (h ▸ List.sublist_append_left rs (r :: rs'))
  refine ⟨t, ⟨r, (hloses.nodes r.id r).2 ⟨?_, ?_⟩, rfl⟩, ht⟩
  · rw [State.nodes_ofSnapshot]
    exact ((Delta.mem_removals ho hd).1 hr).1
  · rintro ⟨a, ha, hra⟩
    exact hpair.2.2 a ha r List.mem_cons_self hra

end Workspace.Transaction

section

-- the objects of both snapshots form trees, none stays under a parent that comes or goes, and the
-- additions of the difference have an order
variable (hold : old.objects.Acyclic) (hnew : new.Treelike) (hanch : old.objects.Anchored new.objects)
  (hd : Delta.between (.ofSnapshot old) (.ofSnapshot new) = .ok d)
  (hl : replayOrder d.additions new.objects = .ok l)

include hold hnew hanch hd hl

namespace Workspace

variable {mode : Replay.Mode} {com : State} {t : Transaction}

/-- **An addition is admitted** after the removals and the additions in front of it. -/
theorem Transaction.exists_admits_addition (h : l = rs ++ n :: rs') :
    ∃ t, t.Admits new.objects n.addition ∧
      Transaction.run (d.removals.map Node.removal ++ rs.map Node.addition) ⟨.ofSnapshot old, ∅⟩ =
        (.ok (), t) := by
  have ho : (Catalog.ofSnapshot old).nodes.Filed := NodeMap.filed_ofList old.nodes
  have hc : (Catalog.ofSnapshot new).nodes.Filed := NodeMap.filed_ofList new.nodes
  have hperm : l.Perm d.additions := perm_of_replayOrder_eq_ok hl
  have hadd : ∀ a ∈ d.additions, new.objects[a.id]? = some a :=
    fun a ha => ((Delta.mem_additions hc hd).1 ha).1
  have hn : n ∈ d.additions := hperm.subset (h ▸ List.mem_append_right rs List.mem_cons_self)
  have hnodup : (rs.map Node.id ++ n.id :: rs'.map Node.id).Nodup := by
    rw [← List.map_cons, ← List.map_append, ← h]
    exact Delta.nodup_of_perm hc hd hperm
  obtain ⟨hfirst, -, hdisjoint⟩ := List.nodup_append.1 hnodup
  obtain ⟨t, ht, hex⟩ := exists_exchanges hold hnew hanch hd
    (fun a ha => hperm.subset (h ▸ List.mem_append_left (n :: rs') ha)) hfirst
  -- what is there: the old objects that are not taken, and what has been added so far
  have hnodes (x : Ident) (a : Node) : t.state.nodes[x]? = some a ↔
      (old.objects[x]? = some a ∧ ¬ d.Takes old.objects x) ∨ a ∈ rs ∧ a.id = x := by
    rw [hex.nodes, State.nodes_ofSnapshot]
  refine ⟨t, ⟨?_, ?_⟩, ht⟩
  · intro hmem
    obtain ⟨a, ha⟩ := NodeMap.mem_iff_exists.1 hmem
    rcases (hnodes n.id a).1 ha with ⟨hao, hno⟩ | ⟨hars, hid⟩
    · exact hno (Delta.takes_of_mem_additions ho hc hd hold hanch hn
        (NodeMap.mem_of_getElem?_eq_some hao))
    · exact hdisjoint a.id (List.mem_map.2 ⟨a, hars, rfl⟩) n.id List.mem_cons_self hid
  · intro p hp hpnew
    obtain ⟨a, ha⟩ := NodeMap.mem_iff_exists.1 hpnew
    have hid : a.id = p := hc p a ha
    refine NodeMap.mem_iff_exists.2 ⟨a, (hnodes p a).2 ?_⟩
    rcases (Delta.getElem?_new_iff ho hc hd hold hanch).1 ha with hkept | ⟨hadded, -⟩
    · exact .inl hkept
    · -- a parent that is added too has been added before
      exact .inr ⟨parent_mem_of_replayOrder hadd hl h hadded (hid ▸ hp), hid⟩

theorem exists_admits (h : d.calls mode l = before ++ call :: after) (hcall : call.isEdit = false) :
    ∃ t, sink.send (.begin :: before) (.ofSnapshot old) = (.ok (), ⟨.ofSnapshot old, some t⟩) ∧
      t.Admits new.objects call := by
  have hcontrol : ∀ c ∈ before, c.isControl = false := fun c hc =>
    Delta.isControl_of_mem_calls (h ▸ List.mem_append_left _ hc)
  obtain ⟨t, hadmits, ht⟩ : ∃ t, t.Admits new.objects call ∧
      Transaction.run before ⟨.ofSnapshot old, ∅⟩ = (.ok (), t) := by
    rcases Delta.calls_cases h hcall with ⟨rs, r, rs', hr, rfl, rfl⟩ | ⟨rs, n, rs', hn, rfl, rfl⟩
    · exact Transaction.exists_admits_removal hd hr
    · exact Transaction.exists_admits_addition hold hnew hanch hd hl hn
  exact ⟨t, send_begin hcontrol ht, hadmits⟩

/-- Wherever a replay has come to in its transaction, the next call is admitted. -/
theorem admits_of_send (h : .begin :: (d.calls mode l ++ [.commit]) = before ++ call :: after)
    (hsend : sink.send before (.ofSnapshot old) = (.ok (), ⟨com, some t⟩)) :
    t.Admits new.objects call := by
  cases before with
  | nil => cases hsend
  | cons c before =>
      rw [List.cons_append, List.cons.injEq] at h
      obtain ⟨rfl, h⟩ := h
      rcases append_eq_append_cons h with ⟨rest, hcalls⟩ | ⟨mid, -, hcommit⟩
      · cases hcall : call.isEdit with
        | true =>
            cases call with
            | set => exact trivial
            | _ => cases hcall
        | false =>
            obtain ⟨t', ht', hadmits⟩ := exists_admits hold hnew hanch hd hl hcalls hcall
            cases hsend.symm.trans ht'
            exact hadmits
      · -- behind the calls of the difference there is only the commit
        cases mid with
        | nil =>
            cases hcommit
            exact trivial
        | cons c mid => simp at hcommit

/-- Up to any point of a replay the strict sink does what the workspace does. -/
theorem strictSink_send_calls (h : .begin :: (d.calls mode l ++ [.commit]) = before ++ after) :
    (strictSink new.objects).send before (.ofSnapshot old) = sink.send before (.ofSnapshot old) := by
  refine strictSink_send_eq ?_
  rintro calls call rest com t rfl hsend
  rw [List.append_assoc] at h
  exact admits_of_send hold hnew hanch hd hl h hsend

end Workspace

end

/-! ### The replay -/

theorem Snapshot.treelike_of_ofMap {s : Snapshot} {f : Forest}
    (hparent : ∀ n ∈ s.nodes, n.parent.all (fun p => !p.isEmpty) = true)
    (hf : Forest.ofMap s.objects = .ok f) : s.Treelike where
  parent_ne_empty n hn p hp := by
    have hall := hparent n hn
    rw [hp] at hall
    simpa using hall
  acyclic := Forest.exists_ofMap_eq_ok_iff.1 ⟨f, hf⟩

/-- No object stays in its place under a parent that comes or goes, if no record that both snapshots
list has such a parent. -/
theorem Snapshot.anchored_of_nodes {old new : Snapshot}
    (h : ∀ n ∈ old.nodes, n ∈ new.nodes → ∀ p ∈ n.parent, p ∈ old.objects ↔ p ∈ new.objects) :
    old.objects.Anchored new.objects := by
  rintro id p ⟨n, hn, hn', hp⟩
  exact h n (NodeMap.mem_of_getElem?_ofList hn) (NodeMap.mem_of_getElem?_ofList hn') p hp

theorem Snapshot.compatible_of_nodes {old new : Snapshot} {f g : Forest}
    (hparent : ∀ s ∈ [old, new], ∀ n ∈ s.nodes, n.parent.all (fun p => !p.isEmpty) = true)
    (howned : ∀ s ∈ [old, new], ∀ p ∈ s.properties, p.owner ∈ s.objects)
    (hanch : ∀ n ∈ old.nodes, n ∈ new.nodes → ∀ p ∈ n.parent, p ∈ old.objects ↔ p ∈ new.objects)
    (hf : Forest.ofMap old.objects = .ok f) (hg : Forest.ofMap new.objects = .ok g) :
    old.Compatible new := by
  rw [List.forall_mem_cons, List.forall_mem_singleton] at hparent howned
  exact ⟨treelike_of_ofMap hparent.1 hf, treelike_of_ofMap hparent.2 hg, howned.1, howned.2,
    anchored_of_nodes hanch⟩

namespace Comparison

/-- A strict sink that holds the old objects and expects the new ones takes the additions in the given
order. -/
structure SuitsStrictSink (c : Comparison) (l : List Node) (old new : Snapshot) : Prop where
  /-- Every removal and every addition is admitted in the state in which it comes. -/
  admits : ∀ (mode : Replay.Mode) (before : List Call) (call : Call) (after : List Call),
    c.delta.calls mode l = before ++ call :: after → call.isEdit = false → ∃ com t,
      Workspace.sink.send (.begin :: before) (.ofSnapshot old) = (.ok (), ⟨com, some t⟩) ∧
        t.Admits new.objects call
  /-- Additions under one parent come in the order of their places. -/
  siblings : l.Pairwise fun a b => a.parent = b.parent → a.index ≤ b.index
  accepted : ∃ w, (Workspace.strictSink new.objects).send
    (.begin :: (c.delta.removals.map Node.removal ++ l.map Node.addition)) (.ofSnapshot old) =
      (.ok (), w)
  replayed : ∀ mode : Replay.Mode, c.replay mode (Workspace.strictSink new.objects) (.ofSnapshot old) =
    c.replay mode Workspace.sink (.ofSnapshot old)

/-- Sinks that do the same with the calls of a replay, and roll back alike, are alike to the replay. -/
theorem replay_congr {c : Comparison} {mode : Replay.Mode} {a b : Sink Workspace} {w w' : Workspace}
    (horder : c.order = .ok l) (ha : a .begin w = (.ok (), w')) (hb : b .begin w = (.ok (), w'))
    (hcalls : a.send (c.delta.calls mode l ++ [.commit]) w' =
      b.send (c.delta.calls mode l ++ [.commit]) w')
    (hrollback : a .rollback = b .rollback) : c.replay mode a w = c.replay mode b w := by
  simp only [replay, horder, ha, hb, hcalls, hrollback]

/-- **A replay suits a strict sink.**  Where the objects of both snapshots form trees, and no object
stays in its place under a parent that comes or goes, the comparison succeeds and its additions have an
order.  In a replay into the old graph each removed object is there under the parent that is named,
each added one is not there and comes after its parent, and siblings come in the order of their places;
so a sink that refuses an object before its parent accepts them all. -/
theorem replay_suits_strict_sink (old new : Snapshot) (hold : old.Treelike) (hnew : new.Treelike)
    (hanch : old.objects.Anchored new.objects) :
    ∃ c l, fresh.compare old new = (.ok (), c) ∧ c.order = .ok l ∧ c.SuitsStrictSink l old new := by
  have ho : (Catalog.ofSnapshot old).nodes.Filed := NodeMap.filed_ofList old.nodes
  have hc : (Catalog.ofSnapshot new).nodes.Filed := NodeMap.filed_ofList new.nodes
  obtain ⟨d, hd⟩ := Delta.exists_between_of_acyclic (c := .ofSnapshot new) ho hold.acyclic hnew.acyclic
  have hadd : ∀ n ∈ d.additions, new.objects[n.id]? = some n :=
    fun n hn => ((Delta.mem_additions hc hd).1 hn).1
  obtain ⟨l, hl, hperm⟩ := exists_replayOrder_eq_ok hnew.acyclic hadd
  have horder : (done (.ofSnapshot old) (.ofSnapshot new) d).order = .ok l := hl
  refine ⟨_, l, compare_eq_ok_iff.2 ⟨d, hd, rfl⟩, horder, ?_, ?_, ?_, ?_⟩
  · intro mode before call after h hcall
    exact ⟨_, Workspace.exists_admits hold.acyclic hnew hanch hd hl h hcall⟩
  · exact pairwise_index_of_replayOrder hadd hl
  · obtain ⟨t, ht, -⟩ := Workspace.Transaction.exists_exchanges hold.acyclic hnew hanch hd hperm.subset
      (Delta.nodup_of_perm hc hd hperm)
    have hmem : ∀ a ∈ d.removals.map Node.removal ++ l.map Node.addition, a ∈ d.calls .plain l :=
      fun a ha => List.mem_append_left _ ha
    have hprefix : .begin :: (d.calls .plain l ++ [.commit]) =
        .begin :: (d.removals.map Node.removal ++ l.map Node.addition) ++
          (d.edits.map (Property.call .plain) ++ [.commit]) := by
      rw [List.cons_append, Delta.calls, List.append_assoc _ _ [Call.commit]]
    refine ⟨⟨.ofSnapshot old, some t⟩, ?_⟩
    refine (Workspace.strictSink_send_calls hold.acyclic hnew hanch hd hl hprefix).trans ?_
    exact Workspace.send_begin (fun a ha => Delta.isControl_of_mem_calls (hmem a ha)) ht
  · intro mode
    exact replay_congr horder rfl rfl (Workspace.strictSink_send_calls hold.acyclic hnew hanch hd hl
      (List.append_nil _).symm) rfl

/-- One object is moved into the place of another under a kept parent, and takes its own child along;
the other one is gone, and a fresh object comes before it. -/
theorem replay_suits_strict_sink_on_moved_branch :
    let old : Snapshot := ⟨
      [⟨none, "T", ⟨"k"⟩, 0⟩, ⟨some ⟨"k"⟩, "T", ⟨"g"⟩, 1⟩, ⟨some ⟨"k"⟩, "T", ⟨"s"⟩, 2⟩,
        ⟨some ⟨"g"⟩, "T", ⟨"b"⟩, 0⟩, ⟨some ⟨"b"⟩, "T", ⟨"a"⟩, 0⟩],
      [.point ⟨"a"⟩ "x" .string (.ofText "1")]⟩
    let new : Snapshot := ⟨
      [⟨none, "T", ⟨"k"⟩, 0⟩, ⟨some ⟨"k"⟩, "T", ⟨"b"⟩, 1⟩, ⟨some ⟨"k"⟩, "T", ⟨"s"⟩, 2⟩,
        ⟨some ⟨"k"⟩, "T", ⟨"f"⟩, 0⟩, ⟨some ⟨"b"⟩, "T", ⟨"a"⟩, 0⟩],
      [.point ⟨"a"⟩ "x" .string (.ofText "1")]⟩
    ∃ c l, fresh.compare old new = (.ok (), c) ∧ c.order = .ok l ∧ c.SuitsStrictSink l old new := by
  intro old new
  exact replay_suits_strict_sink old new (Snapshot.treelike_of_ofMap (by decide +kernel) rfl)
    (Snapshot.treelike_of_ofMap (by decide +kernel) rfl)
    (Snapshot.anchored_of_nodes (by decide +kernel))

end Comparison

end GraphDelta
