/-
**What is true of every workspace.**

A workspace holds objects, properties, and within a transaction the marks of what the transaction has
added.  The calls touch different ones of these, and yet they stay in step, whatever calls are sent:
everything is filed under its own identifier or key, every property belongs to an object that is there
and is the record of a value that is not null, and exactly those objects are marked that the open
transaction has added and not taken away since.

The last is a statement about the past of a transaction.  It is said by the calls that have been
accepted since the begin, and what each of them finds in the graph when its turn comes.

Main definitions:

* `Workspace.State.Recorded`, `Workspace.State.Coherent` — what is true of the graph of a workspace;
* `Workspace.State.Spares`, `Workspace.State.Adds` — some calls do not take an object along, or add it
  for good;
* `Workspace.Transaction.Made` — a transaction is what some calls have made of a graph;
* `Workspace.Started` — the workspaces from which calls may start.

Main results:

* `Workspace.State.Recorded.effect`, `Workspace.Transaction.coherent_of_apply` — one call keeps a graph
  as it should be;
* `Workspace.Transaction.Made.step` — one call keeps a transaction in step with its past;
* `Workspace.recorded_drive` — what is true whoever the owners are;
* `Workspace.coherent_drive` — **what is true of every workspace**, after any calls.
-/
import GraphDelta.Proofs.Edits
import GraphDelta.Proofs.Isolation
import GraphDelta.Proofs.Phases

set_option autoImplicit false

namespace GraphDelta

variable {c : Call} {cs log : List Call} {id : Ident} {k : Property.Key} {p : Property}

namespace Workspace

namespace State

variable {s : State}

/-! ### Graphs as they should be -/

/-- Everything is filed under its own identifier or key, and every property is the record of a value
at a point in time. -/
structure Recorded (s : State) : Prop where
  nodes : s.nodes.Filed
  properties : s.properties.Filed
  isNull_eq : ∀ (k : Property.Key) (p : Property), s.properties[k]? = some p → p.after.isNull = false
  point : ∀ (k : Property.Key) (p : Property), s.properties[k]? = some p →
    p.before = p.after ∧ p.isEdit = false

/-- In addition, every property belongs to an object. -/
structure Coherent (s : State) : Prop extends Recorded s where
  owned : ∀ (k : Property.Key) (p : Property), s.properties[k]? = some p → k.owner ∈ s.nodes

/-- What is set is a property that was there, or the record of the value. -/
theorem of_getElem?_properties_set {owner : Ident} {name : String} {type : ValueType} {v : Value}
    (h : (s.set owner name type v).properties[k]? = some p) : s.properties[k]? = some p ∨
      k = ⟨owner, name⟩ ∧ v.isNull = false ∧ p = .point owner name type v := by
  have hset : (s.set owner name type v).properties[k]? =
      if ⟨owner, name⟩ = k then (Property.point owner name type v).stored? else s.properties[k]? :=
    getElem?_properties_set (.point owner name type v) k
  rw [hset] at h
  split at h
  · rename_i hk
    rw [Property.stored?] at h
    split at h
    · cases h
    · rename_i hnull
      cases h
      exact .inr ⟨hk.symm, Bool.eq_false_iff.2 hnull, rfl⟩
  · exact .inl h

theorem Recorded.set (h : s.Recorded) (owner : Ident) (name : String) (type : ValueType) (v : Value) :
    (s.set owner name type v).Recorded where
  nodes := h.nodes
  properties k p hp := by
    rcases of_getElem?_properties_set hp with hp | ⟨rfl, -, rfl⟩
    · exact h.properties k p hp
    · rfl
  isNull_eq k p hp := by
    rcases of_getElem?_properties_set hp with hp | ⟨-, hnull, rfl⟩
    · exact h.isNull_eq k p hp
    · exact hnull
  point k p hp := by
    rcases of_getElem?_properties_set hp with hp | ⟨-, -, rfl⟩
    · exact h.point k p hp
    · exact ⟨rfl, rfl⟩

theorem Recorded.without (h : s.Recorded) (ids : Std.ExtTreeSet Ident) :
    (s.without ids).Recorded where
  nodes id n hn := h.nodes id n (getElem?_nodes_without.1 hn).1
  properties k p hp := h.properties k p (getElem?_properties_without.1 hp).1
  isNull_eq k p hp := h.isNull_eq k p (getElem?_properties_without.1 hp).1
  point k p hp := h.point k p (getElem?_properties_without.1 hp).1

theorem recorded_ofSnapshot (s : Snapshot) : (ofSnapshot s).Recorded := by
  have hfold (ps : List Property) {t : State} (ht : t.Recorded) :
      (ps.foldl (fun t p => t.set p.owner p.name p.type p.after) t).Recorded := by
    induction ps generalizing t with
    | nil => exact ht
    | cons p ps ih => exact ih (ht.set p.owner p.name p.type p.after)
  have hno {k : Property.Key} {p : Property} : ¬ (∅ : PropertyMap)[k]? = some p := by simp
  exact hfold s.properties ⟨NodeMap.filed_ofList s.nodes, fun _ _ h => absurd h hno,
    fun _ _ h => absurd h hno, fun _ _ h => absurd h hno⟩

theorem Recorded.effect (h : s.Recorded) (c : Call) : (s.effect c).Recorded := by
  cases c with
  | begin => exact h
  | commit => exact h
  | rollback => exact h
  | remove parent top => exact h.without (s.below top)
  | set id name type before after => exact h.set id name type after
  | add parent typeTag a index =>
      refine ⟨?_, h.properties, h.isNull_eq, h.point⟩
      intro id n hn
      rw [State.effect, Std.ExtTreeMap.getElem?_insert] at hn
      split at hn
      · rename_i hid
        cases hn
        exact Std.LawfulEqOrd.eq_of_compare hid
      · exact h.nodes id n hn

theorem coherent_ofSnapshot {s : Snapshot} (h : s.Owned) : (ofSnapshot s).Coherent := by
  refine ⟨recorded_ofSnapshot s, ?_⟩
  intro k p hp
  rw [getElem?_properties_ofSnapshot] at hp
  obtain ⟨q, hq, -⟩ := Option.bind_eq_some_iff.1 hp
  rw [nodes_ofSnapshot, ← PropertyMap.filed_ofList s.properties k q hq]
  exact h q (PropertyMap.mem_of_getElem?_ofList hq)

theorem Coherent.getElem?_properties_eq_none (h : s.Coherent) (hk : k.owner ∉ s.nodes) :
    s.properties[k]? = none :=
  Option.eq_none_iff_forall_ne_some.2 fun p hp => hk (h.owned k p hp)

theorem value_eq_elim (s : State) (k : Property.Key) :
    s.value k = s.properties[k]?.elim .null Property.after := by
  rw [value]
  cases s.properties[k]? <;> rfl

end State

/-- A call that a transaction accepts keeps its graph as it should be. -/
theorem Transaction.coherent_of_apply {t t' : Transaction} (ht : t.state.Coherent)
    (h : t.apply c = (.ok (), t')) : t'.state.Coherent := by
  refine ⟨?_, ?_⟩
  · rw [state_of_apply h]
    exact ht.toRecorded.effect c
  · intro k p hp
    cases c with
    | begin => cases h; exact ht.owned k p hp
    | commit => cases h; exact ht.owned k p hp
    | rollback => cases h; exact ht.owned k p hp
    | add parent typeTag id index =>
        rw [apply, Node.make_eq] at h
        obtain ⟨-, rfl⟩ := add_eq_ok_iff.1 h
        exact Std.ExtTreeMap.mem_insert.2 (.inr (ht.owned k p hp))
    | remove parent id =>
        obtain ⟨n, -, -, rfl⟩ := remove_eq_ok_iff.1 h
        obtain ⟨hp, hk⟩ := State.getElem?_properties_without.1 hp
        obtain ⟨m, hm⟩ := NodeMap.mem_iff_exists.1 (ht.owned k p hp)
        exact NodeMap.mem_of_getElem?_eq_some (State.getElem?_nodes_without.2 ⟨hm, hk⟩)
    | set id name type before after =>
        obtain ⟨hid, -, rfl⟩ := set_eq_ok_iff.1 h
        rcases State.of_getElem?_properties_set hp with hp | ⟨rfl, -, -⟩
        · exact ht.owned k p hp
        · exact hid

/-! ### What becomes of an object -/

namespace State

variable {s : State}

/-- The call is a removal of a present object to which parents lead from the given one. -/
def Takes (s : State) (c : Call) (id : Ident) : Prop :=
  ∃ parent top, c = .remove parent top ∧ top ∈ s.nodes ∧ Leads s.nodes.parent? id top

theorem takes_remove_iff {parent : Option Ident} {top : Ident} :
    s.Takes (.remove parent top) id ↔ id ∈ s.below top := by
  rw [mem_below]
  simp [Takes]

/-- None of the calls takes the object along, when they are made of the graph one after the other. -/
def Spares (id : Ident) : List Call → State → Prop
  | [], _ => True
  | c :: cs, s => ¬ s.Takes c id ∧ Spares id cs (s.effect c)

/-- One of the calls adds the object, and none of those after it takes it along. -/
def Adds (s : State) (log : List Call) (id : Ident) : Prop :=
  ∃ before parent typeTag index after, log = before ++ .add parent typeTag id index :: after ∧
    Spares id after ((before ++ [.add parent typeTag id index]).foldl effect s)

theorem spares_append_singleton :
    Spares id (cs ++ [c]) s ↔ Spares id cs s ∧ ¬ (cs.foldl effect s).Takes c id := by
  induction cs generalizing s with
  | nil => simp [Spares]
  | cons b cs ih => rw [List.cons_append, Spares, Spares, ih, and_assoc, List.foldl_cons]

/-- After one more call an object has been added for good if this call adds it, or if it had been
before and this call does not take it along. -/
theorem adds_append_singleton : s.Adds (log ++ [c]) id ↔
    (∃ parent typeTag index, c = .add parent typeTag id index) ∨
      s.Adds log id ∧ ¬ (log.foldl effect s).Takes c id := by
  constructor
  · rintro ⟨before, parent, typeTag, index, after, hlog, hspares⟩
    rcases List.eq_nil_or_concat' after with rfl | ⟨after, b, rfl⟩
    · obtain ⟨-, hc⟩ := List.append_inj' hlog rfl
      exact .inl ⟨parent, typeTag, index, List.singleton_inj.1 hc⟩
    · rw [← List.cons_append, ← List.append_assoc] at hlog
      obtain ⟨rfl, hc⟩ := List.append_inj' hlog rfl
      cases List.singleton_inj.1 hc
      rw [spares_append_singleton, ← List.foldl_append, List.append_assoc, List.singleton_append]
        at hspares
      exact .inr ⟨⟨before, parent, typeTag, index, after, rfl, hspares.1⟩, hspares.2⟩
  · rintro (⟨parent, typeTag, index, rfl⟩ | ⟨⟨before, parent, typeTag, index, after, rfl, hspares⟩, hc⟩)
    · exact ⟨log, parent, typeTag, index, [], rfl, trivial⟩
    · refine ⟨before, parent, typeTag, index, after ++ [c], by simp, ?_⟩
      rw [spares_append_singleton, ← List.foldl_append, List.append_assoc, List.singleton_append]
      exact ⟨hspares, hc⟩

end State

namespace Transaction

variable {com : State} {t t' : Transaction}

/-! ### What one call does to an object -/

theorem mem_nodes_of_apply (h : t.apply c = (.ok (), t')) : id ∈ t'.state.nodes ↔
    (∃ parent typeTag index, c = .add parent typeTag id index) ∨
      id ∈ t.state.nodes ∧ ¬ t.state.Takes c id := by
  cases c with
  | begin => cases h; simp [State.Takes]
  | commit => cases h; simp [State.Takes]
  | rollback => cases h; simp [State.Takes]
  | add parent typeTag a index =>
      rw [apply, Node.make_eq] at h
      obtain ⟨-, rfl⟩ := add_eq_ok_iff.1 h
      simp [State.Takes]
  | remove parent top =>
      obtain ⟨n, -, -, rfl⟩ := remove_eq_ok_iff.1 h
      rw [State.takes_remove_iff]
      simp [NodeMap.mem_iff_exists, State.getElem?_nodes_without]
  | set a name type before after =>
      obtain ⟨-, -, rfl⟩ := set_eq_ok_iff.1 h
      simp [State.Takes]

theorem mem_created_of_apply (h : t.apply c = (.ok (), t')) : id ∈ t'.created ↔
    (∃ parent typeTag index, c = .add parent typeTag id index) ∨
      id ∈ t.created ∧ ¬ t.state.Takes c id := by
  cases c with
  | begin => cases h; simp [State.Takes]
  | commit => cases h; simp [State.Takes]
  | rollback => cases h; simp [State.Takes]
  | add parent typeTag a index =>
      rw [apply, Node.make_eq] at h
      obtain ⟨-, rfl⟩ := add_eq_ok_iff.1 h
      simp [State.Takes]
  | remove parent top =>
      obtain ⟨n, -, -, rfl⟩ := remove_eq_ok_iff.1 h
      rw [State.takes_remove_iff]
      simp [Bool.eq_false_iff]
  | set a name type before after =>
      obtain ⟨-, -, rfl⟩ := set_eq_ok_iff.1 h
      simp [State.Takes]

theorem free_of_apply {parent : Option Ident} {typeTag : String} {index : Int32}
    (h : t.apply (.add parent typeTag id index) = (.ok (), t')) : id ∉ t.state.nodes :=
  (add_eq_ok_iff.1 h).1

/-! ### The past of a transaction -/

/-- A transaction is what some calls have made of a graph, each of which was accepted in its turn. -/
structure Made (com : State) (log : List Call) (t : Transaction) : Prop where
  state : t.state = log.foldl State.effect com
  created : ∀ id, id ∈ t.created ↔ com.Adds log id
  present : ∀ id ∈ t.created, id ∈ t.state.nodes
  carried : ∀ id ∈ com.nodes, State.Spares id log com → id ∈ t.state.nodes ∧ id ∉ t.created

theorem made_begin (com : State) : Made com [] ⟨com, ∅⟩ where
  state := rfl
  created id := by simp [State.Adds]
  present id hid := by simp at hid
  carried id hid _ := ⟨hid, by simp⟩

theorem Made.step (h : Made com log t) (hc : t.apply c = (.ok (), t')) : Made com (log ++ [c]) t' where
  state := by
    rw [state_of_apply hc, h.state, List.foldl_append]
    rfl
  created id := by
    rw [mem_created_of_apply hc, State.adds_append_singleton, h.created, h.state]
  present id hid := by
    rw [mem_nodes_of_apply hc]
    exact ((mem_created_of_apply hc).1 hid).imp_right fun hid => ⟨h.present id hid.1, hid.2⟩
  carried id hid hspares := by
    rw [State.spares_append_singleton, ← h.state] at hspares
    obtain ⟨hmem, hcreated⟩ := h.carried id hid hspares.1
    rw [mem_nodes_of_apply hc, mem_created_of_apply hc]
    refine ⟨.inr ⟨hmem, hspares.2⟩, ?_⟩
    rintro (⟨parent, typeTag, index, rfl⟩ | ⟨hid, -⟩)
    · exact free_of_apply hc hmem
    · exact hcreated hid

/-- An update of an object that is there and not marked is checked against the current value. -/
theorem set_of_notMem_created (hid : id ∈ t.state.nodes) (hcreated : id ∉ t.created) (name : String)
    (type : ValueType) (before after : Value) : t.set id name type (some before) after =
      if t.state.value ⟨id, name⟩ == before then
        (.ok (), { t with state := t.state.set id name type after })
      else (.error (.conflict ⟨id, name⟩ before (t.state.value ⟨id, name⟩)), t) := by
  rw [Std.ExtTreeMap.mem_iff_contains] at hid
  rw [← Std.ExtTreeSet.contains_iff_mem, Bool.not_eq_true] at hcreated
  rw [set, if_pos hid, hcreated]
  cases hvalue : t.state.value ⟨id, name⟩ == before with
  | true => simp [Option.filter, hvalue]
  | false => simp [Option.filter, hvalue]

end Transaction

/-! ### After any calls -/

variable {w w' w₀ : Workspace}

/-- Whatever calls are sent, the graph of a loaded workspace stays as it should be, its owners apart. -/
theorem recorded_drive (s : Snapshot) (cs : List Call) :
    (sink.drive cs (.ofSnapshot s)).committed.Recorded := by
  have hall := drive_induction (w := .ofSnapshot s)
    (P := fun _ w => w.committed.Recorded ∧ ∀ t, w.pending = some t → t.state.Recorded)
    ?_ ⟨State.recorded_ofSnapshot s, fun t ht => by cases ht⟩ cs
  · exact hall.1
  · rintro log c w w' ⟨hcom, hpending⟩ haccepts
    cases haccepts with
    | begin com => exact ⟨hcom, by rintro _ ⟨⟩; exact hcom⟩
    | commit com t => exact ⟨hpending t rfl, fun t ht => by cases ht⟩
    | rollback com t => exact ⟨hcom, fun t ht => by cases ht⟩
    | @change _ com t t' hcontrol happly =>
        refine ⟨hcom, ?_⟩
        rintro _ ⟨⟩
        rw [Transaction.state_of_apply happly]
        exact (hpending t rfl).effect c

/-- A workspace from which calls may start: it holds nothing, or a snapshot whose properties belong to
its objects. -/
inductive Started : Workspace → Prop
  | empty : Started .empty
  | loaded {s : Snapshot} : s.Owned → Started (.ofSnapshot s)

/-- What is true of a workspace that has accepted some calls. -/
structure Kept (accepted : List Call) (w : Workspace) : Prop where
  committed : w.committed.Coherent
  pending : ∀ t, w.pending = some t → t.state.Coherent
  made : ∀ t, w.pending = some t → ∃ before log, accepted = before ++ .begin :: log ∧
    (∀ c ∈ log, c.isControl = false) ∧ t.Made w.committed log

theorem kept_of_closed {com : State} (h : com.Coherent) : Kept log ⟨com, none⟩ where
  committed := h
  pending t ht := by cases ht
  made t ht := by cases ht

theorem Started.kept (h : Started w) : Kept [] w := by
  cases h with
  | empty =>
      have howned : Snapshot.Owned ∅ := fun p hp => absurd hp List.not_mem_nil
      exact kept_of_closed (State.coherent_ofSnapshot howned)
  | loaded howned => exact kept_of_closed (State.coherent_ofSnapshot howned)

theorem Kept.step (h : Kept log w) (hc : Accepts c w w') : Kept (log ++ [c]) w' := by
  cases hc with
  | begin com =>
      refine ⟨h.committed, ?_, ?_⟩
      · rintro t ⟨⟩
        exact h.committed
      · rintro t ⟨⟩
        exact ⟨log, [], rfl, fun c hc => absurd hc List.not_mem_nil, Transaction.made_begin com⟩
  | commit com t => exact kept_of_closed (h.pending t rfl)
  | rollback com t => exact kept_of_closed h.committed
  | @change _ com t t' hcontrol happly =>
      refine ⟨h.committed, ?_, ?_⟩
      · rintro _ ⟨⟩
        exact Transaction.coherent_of_apply (h.pending t rfl) happly
      · rintro _ ⟨⟩
        obtain ⟨before, calls, rfl, hcalls, hmade⟩ := h.made t rfl
        refine ⟨before, calls ++ [c], by simp, ?_, hmade.step happly⟩
        rw [List.forall_mem_append, List.forall_mem_singleton]
        exact ⟨hcalls, hcontrol⟩

theorem kept_drive (h : Started w) (cs : List Call) :
    Kept (sink.accepted cs w) (sink.drive cs w) :=
  drive_induction (P := Kept) (fun _ _ _ _ h hc => h.step hc) h.kept cs

/-- What is true of a transaction that some calls have made of what is committed. -/
structure Transaction.InStep (com : State) (log : List Call) (t : Transaction) : Prop where
  state : t.state = log.foldl State.effect com
  /-- Of the objects that are there, those are marked that one of the calls has added and none after it
  has taken along. -/
  created : ∀ id, id ∈ t.created ↔ id ∈ t.state.nodes ∧ com.Adds log id
  fresh : ∀ parent typeTag id index t', t.apply (.add parent typeTag id index) = (.ok (), t') →
    ∀ name : String, t'.state.properties[(⟨id, name⟩ : Property.Key)]? = none
  /-- As long as none of the calls takes a committed object along, an update of it is checked against
  the value after of the property that is there, or against null where there is none. -/
  checked : ∀ id ∈ com.nodes, State.Spares id log com → ∀ name type before after,
    let current := t.state.properties[(⟨id, name⟩ : Property.Key)]?.elim .null Property.after
    t.apply (.set id name type (some before) after) =
      if current == before then
        (.ok (), { t with state := t.state.effect (.set id name type (some before) after) })
      else (.error (.conflict ⟨id, name⟩ before current), t)

/-- A transaction over a graph as it should be is in step with its past. -/
theorem Transaction.Made.inStep {com : State} {t : Transaction} (h : t.Made com log)
    (ht : t.state.Coherent) : t.InStep com log where
  state := h.state
  created id := by
    rw [h.created]
    exact ⟨fun hid => ⟨h.present id ((h.created id).2 hid), hid⟩, And.right⟩
  fresh parent typeTag id index t' ht' name := by
    obtain ⟨hfree, rfl⟩ := add_eq_ok_iff.1 ht'
    exact ht.getElem?_properties_eq_none hfree
  checked id hid hspares name type before after := by
    obtain ⟨hmem, hcreated⟩ := h.carried id hid hspares
    rw [← State.value_eq_elim]
    exact set_of_notMem_created hmem hcreated name type before after

/-- **What is true of every workspace**, after any calls.  What is committed is as it should be, and so
is the graph of the open transaction.  The transaction is in step with the calls that have been accepted
since its begin. -/
theorem coherent_drive (h : Started w₀) (cs : List Call) :
    (sink.drive cs w₀).committed.Coherent ∧
    ∀ t, (sink.drive cs w₀).pending = some t → t.state.Coherent ∧
      ∃ before log, sink.accepted cs w₀ = before ++ .begin :: log ∧
        (∀ c ∈ log, c.isControl = false) ∧ t.InStep (sink.drive cs w₀).committed log := by
  have hkept := kept_drive h cs
  refine ⟨hkept.committed, ?_⟩
  intro t ht
  obtain ⟨before, log, hlog, hcontrol, hmade⟩ := hkept.made t ht
  have hstate := hkept.pending t ht
  exact ⟨hstate, before, log, hlog, hcontrol, hmade.inStep hstate⟩

/-- An object is removed and added again, another is added and removed, and an update of a third that
insists on a value it does not have is refused.  The first is marked, the others are not, and what the
first had is gone.  The third can still be updated from the value that it has. -/
theorem coherent_drive_after_readdition :
    let s : Snapshot := ⟨[⟨none, "T", ⟨"a"⟩, 0⟩, ⟨some ⟨"a"⟩, "T", ⟨"b"⟩, 0⟩],
      [.point ⟨"a"⟩ "x" .string (.ofText ""), .point ⟨"b"⟩ "y" .string (.ofText "2")]⟩
    let cs : List Call := [
      .begin, .remove (some ⟨"a"⟩) ⟨"b"⟩, .add (some ⟨"a"⟩) "T" ⟨"b"⟩ 1, .add none "T" ⟨"c"⟩ 0,
      .remove none ⟨"c"⟩, .set ⟨"a"⟩ "x" .string (some (.ofText "9")) (.ofText "3")]
    let w : Workspace := sink.drive cs (.ofSnapshot s)
    s.Owned ∧ ∃ t, w.pending = some t ∧ t.created.toList = [⟨"b"⟩] ∧
      t.state.properties.properties =
        [⟨⟨"a"⟩, "x", .string, .ofText "", .ofText "", false⟩] ∧
      t.state.Coherent ∧
      (∃ before log, sink.accepted cs (.ofSnapshot s) = before ++ .begin :: log ∧
        t.InStep w.committed log) ∧
      (sink (.set ⟨"a"⟩ "x" .string (some (.ofText "9")) (.ofText "3")) w).1 =
        .error (.conflict ⟨⟨"a"⟩, "x"⟩ (.ofText "9") (.ofText "")) ∧
      (sink (.set ⟨"a"⟩ "x" .string (some (.ofText "")) (.ofText "3")) w).1 = .ok () := by
  intro s cs w
  have howned : ∀ p ∈ s.properties, p.owner ∈ s.objects := by decide +kernel
  have hread : w.pending.map (fun t => (t.created.toList, t.state.properties.properties)) =
      some ([⟨"b"⟩], [⟨⟨"a"⟩, "x", .string, .ofText "", .ofText "", false⟩]) := by
    decide +kernel
  obtain ⟨t, ht, hread⟩ := Option.map_eq_some_iff.1 hread
  obtain ⟨hcreated, hproperties⟩ := Prod.mk.inj hread
  obtain ⟨hstate, before, log, hlog, -, hstep⟩ := (coherent_drive (.loaded howned) cs).2 t ht
  exact ⟨howned, t, ht, hcreated, hproperties, hstate, ⟨before, log, hlog, hstep⟩,
    by decide +kernel, by decide +kernel⟩

end Workspace

end GraphDelta
