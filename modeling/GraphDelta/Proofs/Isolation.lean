/-
**What a workspace makes of any calls.**

A client may send its calls in any order: changes outside a transaction, a begin within one, a commit
or a rollback without one, changes that do not fit the graph.  A workspace refuses such a call and is
what it was before, so that a history of calls comes down to the accepted ones among them.  Those come
in transactions, each of which works on a graph of its own: what is committed changes with an accepted
commit only, and then becomes what the accepted calls of the transaction have made of it.

What an accepted call does to a graph is said without the conditions under which it is accepted, and
without the marks by which a transaction knows what it has added.

Main definitions:

* `Sink.drive` — sends calls one after the other, whatever the answers are;
* `Sink.accepted` — those of them that are accepted;
* `Workspace.Accepts` — how an accepted call changes a workspace;
* `Workspace.State.effect` — what an accepted call does to a graph.

Main results:

* `Workspace.sink_cases` — a call is accepted, or it changes nothing;
* `Workspace.drive_induction` — **what every accepted call preserves holds after any calls**;
* `Workspace.exists_drive_within` — calls within a transaction make a graph of its own;
* `Workspace.transactions_isolate` — **transactions are isolated, and refused calls leave no trace**.
-/
import GraphDelta.Proofs.Transaction
import Mathlib.Control.Monad.Basic

set_option autoImplicit false

namespace GraphDelta

variable {c : Call} {cs ds : List Call}

/-! ### Sending calls whatever the answers are -/

namespace Sink

variable {σ : Type}

/-- The state after some calls, each of which is sent whatever the answers to the others are. -/
def drive (sink : Sink σ) : List Call → σ → σ
  | [], s => s
  | c :: cs, s => drive sink cs (sink c s).2

/-- Those of the calls that are accepted. -/
def accepted (sink : Sink σ) : List Call → σ → List Call
  | [], _ => []
  | c :: cs, s =>
    match sink c s with
    | (.ok (), s) => c :: accepted sink cs s
    | (.error _, s) => accepted sink cs s

theorem drive_append (sink : Sink σ) (cs ds : List Call) (s : σ) :
    sink.drive (cs ++ ds) s = sink.drive ds (sink.drive cs s) := by
  induction cs generalizing s with
  | nil => rfl
  | cons c cs ih => exact ih (sink c s).2

theorem accepted_sublist (sink : Sink σ) (cs : List Call) (s : σ) :
    (sink.accepted cs s).Sublist cs := by
  induction cs generalizing s with
  | nil => exact .slnil
  | cons c cs ih =>
      rw [accepted]
      rcases sink c s with ⟨e | u, s'⟩
      · exact (ih s').cons c
      · exact (ih s').cons_cons c

end Sink

namespace Workspace

variable {w w' : Workspace} {t t' : Transaction}

/-! ### Accepted calls -/

/-- How an accepted call changes a workspace. -/
inductive Accepts : Call → Workspace → Workspace → Prop
  | begin (com : State) : Accepts .begin ⟨com, none⟩ ⟨com, some ⟨com, ∅⟩⟩
  | commit (com : State) (t : Transaction) : Accepts .commit ⟨com, some t⟩ ⟨t.state, none⟩
  | rollback (com : State) (t : Transaction) : Accepts .rollback ⟨com, some t⟩ ⟨com, none⟩
  | change {c : Call} (com : State) {t t' : Transaction} : c.isControl = false →
      t.apply c = (.ok (), t') → Accepts c ⟨com, some t⟩ ⟨com, some t'⟩

theorem accepts_of_sink (h : sink c w = (.ok (), w')) : Accepts c w w' := by
  obtain ⟨com, pending⟩ := w
  cases pending with
  | none =>
      cases c with
      | begin => cases h; exact .begin com
      | _ => cases h
  | some t =>
      cases hc : c.isControl with
      | false =>
          rw [sink_within hc, Prod.mk.injEq] at h
          obtain ⟨haccepted, rfl⟩ := h
          exact .change com hc (Prod.ext haccepted rfl)
      | true =>
          cases c with
          | begin => cases h
          | commit => cases h; exact .commit com t
          | rollback => cases h; exact .rollback com t
          | _ => cases hc

theorem sink_cases (c : Call) (w : Workspace) :
    (∃ w', sink c w = (.ok (), w') ∧ Accepts c w w') ∨ ∃ e, sink c w = (.error e, w) := by
  rcases h : sink c w with ⟨e | u, w'⟩
  · cases eq_of_sink_refused h
    exact .inr ⟨e, rfl⟩
  · exact .inl ⟨w', rfl, accepts_of_sink h⟩

/-- **What every accepted call preserves holds after any calls**, of the workspace and the calls that
have been accepted so far. -/
theorem drive_induction {P : List Call → Workspace → Prop}
    (hstep : ∀ cs c w w', P cs w → Accepts c w w' → P (cs ++ [c]) w') (hw : P [] w)
    (cs : List Call) : P (sink.accepted cs w) (sink.drive cs w) := by
  suffices hall : ∀ before, P before w → P (before ++ sink.accepted cs w) (sink.drive cs w) from
    hall [] hw
  clear hw
  induction cs generalizing w with
  | nil =>
      intro before hw
      rw [Sink.accepted, List.append_nil]
      exact hw
  | cons c cs ih =>
      intro before hw
      rw [Sink.accepted, Sink.drive]
      rcases sink_cases c w with ⟨w', hc, haccepts⟩ | ⟨e, hc⟩
      · rw [hc, List.append_cons]
        exact ih (before ++ [c]) (hstep before c w w' hw haccepts)
      · rw [hc]
        exact ih before hw

/-! ### Effects -/

namespace State

/-- What an accepted call does to a graph. -/
def effect (s : State) : Call → State
  | .add parent typeTag id index =>
    { s with nodes := s.nodes.insert id ⟨parent.filter (!·.isEmpty), typeTag, id, index⟩ }
  | .remove _ id => s.without (s.below id)
  | .set id name type _ after =>
    { s with properties :=
        if after.isNull then s.properties.erase ⟨id, name⟩
        else s.properties.insert ⟨id, name⟩ ⟨id, name, type, after, after, false⟩ }
  | .begin | .commit | .rollback => s

end State

/-- A transaction works on its graph as the effects of its calls say. -/
theorem Transaction.state_of_apply (h : t.apply c = (.ok (), t')) : t'.state = t.state.effect c := by
  cases c with
  | begin => cases h; rfl
  | commit => cases h; rfl
  | rollback => cases h; rfl
  | add parent typeTag id index =>
      rw [apply, Node.make_eq, add] at h
      split at h
      · cases h
      · cases h; rfl
  | remove parent id =>
      rw [apply, remove] at h
      split at h
      · cases h
      · split at h
        · cases h; rfl
        · cases h
  | set id name type before after =>
      rw [apply, set] at h
      split at h
      · split at h
        · cases h
        · cases h; rfl
      · cases h

/-! ### Calls within a transaction -/

/-- Calls within a transaction leave what is committed alone, and make of the graph of the transaction
what those of them make that are accepted. -/
theorem exists_drive_within (hcs : ∀ c ∈ cs, c ≠ .commit ∧ c ≠ .rollback) (com : State)
    (t : Transaction) : ∃ t', sink.drive cs ⟨com, some t⟩ = ⟨com, some t'⟩ ∧
      t'.state = (sink.accepted cs ⟨com, some t⟩).foldl State.effect t.state := by
  have hall := drive_induction (w := ⟨com, some t⟩)
    (P := fun log w => (∀ c ∈ log, c ≠ .commit ∧ c ≠ .rollback) →
      ∃ t', w = ⟨com, some t'⟩ ∧ t'.state = log.foldl State.effect t.state)
    ?_ (fun _ => ⟨t, rfl, rfl⟩) cs
  · exact hall fun c hc => hcs c ((sink.accepted_sublist cs _).mem hc)
  · intro log c w w' ih haccepts hlog
    rw [List.forall_mem_append, List.forall_mem_singleton] at hlog
    obtain ⟨t₁, rfl, ht₁⟩ := ih hlog.1
    cases haccepts with
    | commit => exact absurd rfl hlog.2.1
    | rollback => exact absurd rfl hlog.2.2
    | @change _ _ _ t₂ hc ht₂ =>
        refine ⟨t₂, rfl, ?_⟩
        rw [Transaction.state_of_apply ht₂, ht₁, List.foldl_append]
        rfl

theorem exists_begin (w : Workspace) : ∃ t, (sink .begin w).2 = ⟨w.committed, some t⟩ ∧
    (w.pending = none → t.state = w.committed) := by
  obtain ⟨com, pending⟩ := w
  cases pending with
  | none => exact ⟨⟨com, ∅⟩, rfl, fun _ => rfl⟩
  | some t => exact ⟨t, rfl, fun h => by cases h⟩

/-- **Transactions are isolated, and refused calls leave no trace**, whatever calls have been sent
before.  What is committed changes only when a commit is accepted, and a call that is refused leaves
the workspace as it was, its transaction included.  A begin, any changes and a rollback drop the
transaction and nothing else.  Between a begin and a commit, the graph becomes what the accepted
changes make of it, one after the other. -/
theorem transactions_isolate (w : Workspace) (cs : List Call) :
    (∀ c, (sink c (sink.drive cs w)).2.committed ≠ (sink.drive cs w).committed →
      c = .commit ∧ (sink c (sink.drive cs w)).1 = .ok ()) ∧
    (∀ c e, (sink c (sink.drive cs w)).1 = .error e →
      (sink c (sink.drive cs w)).2 = sink.drive cs w) ∧
    ((∀ c ∈ cs, c ≠ .commit ∧ c ≠ .rollback) →
      sink.drive (.begin :: cs ++ [.rollback]) w = { w with pending := none } ∧
      (w.pending = none → sink.drive (.begin :: cs ++ [.commit]) w =
        ⟨(sink.accepted cs (sink .begin w).2).foldl State.effect w.committed, none⟩)) := by
  refine ⟨?_, ?_, ?_⟩
  · intro c hchanged
    rcases sink_cases c (sink.drive cs w) with ⟨w', hc, haccepts⟩ | ⟨e, hc⟩
    · rw [hc] at hchanged ⊢
      generalize sink.drive cs w = v at haccepts hchanged
      cases haccepts with
      | commit => exact ⟨rfl, rfl⟩
      | begin => exact absurd rfl hchanged
      | rollback => exact absurd rfl hchanged
      | change => exact absurd rfl hchanged
    · rw [hc] at hchanged
      exact absurd rfl hchanged
  · intro c e hrefused
    rcases sink_cases c (sink.drive cs w) with ⟨w', hc, -⟩ | ⟨e', hc⟩
    · rw [hc] at hrefused
      cases hrefused
    · rw [hc]
  · intro hcs
    obtain ⟨t, ht, hstart⟩ := exists_begin w
    obtain ⟨t', ht', hstate⟩ := exists_drive_within hcs w.committed t
    have hdrive : sink.drive (.begin :: cs) w = ⟨w.committed, some t'⟩ := by
      rw [Sink.drive, ht]
      exact ht'
    rw [Sink.drive_append, Sink.drive_append, hdrive]
    refine ⟨rfl, fun hw => ?_⟩
    rw [hstart hw] at hstate
    rw [ht, ← hstate]
    rfl

/-- Of seven calls within a transaction four are refused: for an object that is there already, for a
transaction that is open already, for an object that is not there, and for another value than the
current one.  Each of them leaves the workspace as it was.  What the three others make is committed, or
dropped; the first of them takes the object below along, and the properties of both. -/
theorem transactions_isolate_with_refused_calls :
    let w : Workspace := .ofSnapshot ⟨
      [⟨none, "T", ⟨"a"⟩, 0⟩, ⟨some ⟨"a"⟩, "T", ⟨"b"⟩, 0⟩, ⟨some ⟨"b"⟩, "T", ⟨"d"⟩, 0⟩],
      [.point ⟨"b"⟩ "x" .string (.ofText "1"), .point ⟨"b"⟩ "y" .string (.ofText "1"),
        .point ⟨"d"⟩ "x" .string (.ofText "1")]⟩
    let cs : List Call := [
      .remove (some ⟨"a"⟩) ⟨"b"⟩, .add none "T" ⟨"a"⟩ 1, .begin, .add none "T" ⟨"b"⟩ 3,
      .set ⟨"b"⟩ "x" .string (some (.ofText "9")) (.ofText ""), .remove none ⟨"c"⟩,
      .set ⟨"a"⟩ "y" .string (some (.ofText "7")) (.ofText "8")]
    let v : Workspace := sink.drive (.begin :: cs) w
    (∀ c ∈ cs, c ≠ .commit ∧ c ≠ .rollback) ∧
    sink.accepted cs (sink .begin w).2 = [
      .remove (some ⟨"a"⟩) ⟨"b"⟩, .add none "T" ⟨"b"⟩ 3,
      .set ⟨"b"⟩ "x" .string (some (.ofText "9")) (.ofText "")] ∧
    sink (.add none "T" ⟨"a"⟩ 1) v = (.error (.duplicate ⟨"a"⟩), v) ∧
    sink .begin v = (.error .transactionOpen, v) ∧
    sink (.remove none ⟨"c"⟩) v = (.error (.unknown ⟨"c"⟩), v) ∧
    sink (.set ⟨"a"⟩ "y" .string (some (.ofText "7")) (.ofText "8")) v =
      (.error (.conflict ⟨⟨"a"⟩, "y"⟩ (.ofText "7") .null), v) ∧
    sink.drive (.begin :: cs ++ [.rollback]) w = w ∧
    (sink.drive (.begin :: cs ++ [.commit]) w).snapshot = ⟨
      [⟨none, "T", ⟨"a"⟩, 0⟩, ⟨none, "T", ⟨"b"⟩, 3⟩],
      [⟨⟨"b"⟩, "x", .string, .ofText "", .ofText "", false⟩]⟩ := by
  intro w cs v
  have hcs : ∀ c ∈ cs, c ≠ .commit ∧ c ≠ .rollback := by decide
  obtain ⟨-, -, h⟩ := transactions_isolate w cs
  have hrefused (c : Call) (e : Refusal) (he : (sink c v).1 = .error e) : sink c v = (.error e, v) :=
    Prod.ext he ((transactions_isolate w (.begin :: cs)).2.1 c e he)
  have haccepted : sink.accepted cs (sink .begin w).2 = [
      .remove (some ⟨"a"⟩) ⟨"b"⟩, .add none "T" ⟨"b"⟩ 3,
      .set ⟨"b"⟩ "x" .string (some (.ofText "9")) (.ofText "")] := by decide +kernel
  refine ⟨hcs, haccepted, hrefused _ _ (by decide +kernel), hrefused _ _ (by decide +kernel),
    hrefused _ _ (by decide +kernel), hrefused _ _ (by decide +kernel), (h hcs).1, ?_⟩
  rw [(h hcs).2 rfl, haccepted]
  decide +kernel

end Workspace

end GraphDelta
