/-
**Replaying into a workspace.**

Within a transaction a workspace only ever changes the copy that the transaction works on, whether the
calls are accepted or refused.  What is committed stays as it is, so that the rollback of a replay
that fails midway leaves the workspace as it was found.  Where a transaction is open already, a replay
fails before it changes anything, and there is nothing for it to roll back.

Main definitions:

* `Workspace.Transaction.run` — the effect of several calls on an open transaction.

Main results:

* `Workspace.send_within` — calls within a transaction do not touch what is committed;
* `Workspace.eq_of_sink_refused` — a refused call changes nothing, from the cases of every operation;
* `Comparison.replay_into_closed`, `Comparison.replay_into_open` — what a replay does to a workspace;
* `Comparison.replay_atomic` — **a replay that fails changes nothing**.
-/
import GraphDelta.Replay
import GraphDelta.Sink.Workspace

set_option autoImplicit false

namespace GraphDelta

variable {c : Call} {cs ds : List Call} {mode : Replay.Mode} {e : Refusal}

/-! ### Runs -/

namespace Workspace.Transaction

variable {t t' : Transaction} {n : Node} {id : Ident} {parent : Option Ident}

/-- The answer to several calls, up to the first that is refused, and the transaction after them. -/
def run (cs : List Call) (t : Transaction) : Except Refusal Unit × Transaction :=
  Sink.send apply cs t

theorem run_cons_eq_ok_iff :
    run (c :: cs) t = (.ok (), t') ↔ ∃ t₁, t.apply c = (.ok (), t₁) ∧ run cs t₁ = (.ok (), t') :=
  Sink.send_cons_eq_ok_iff

theorem run_append_eq_ok_iff :
    run (cs ++ ds) t = (.ok (), t') ↔ ∃ t₁, run cs t = (.ok (), t₁) ∧ run ds t₁ = (.ok (), t') :=
  Sink.send_append_eq_ok_iff

/-! ### Refused calls -/

theorem eq_of_add_refused (h : t.add n = (.error e, t')) : t' = t := by
  rw [add] at h
  split at h
  · cases h; rfl
  · cases h

theorem eq_of_remove_refused (h : t.remove parent id = (.error e, t')) : t' = t := by
  rw [remove] at h
  split at h
  · cases h; rfl
  · split at h
    · cases h
    · cases h; rfl

theorem eq_of_set_refused {name : String} {type : ValueType} {before : Option Value} {after : Value}
    (h : t.set id name type before after = (.error e, t')) : t' = t := by
  rw [set] at h
  split at h
  · split at h
    · cases h; rfl
    · cases h
  · cases h; rfl

/-- A call that a transaction refuses changes nothing in it. -/
theorem eq_of_apply_refused (h : t.apply c = (.error e, t')) : t' = t := by
  cases c with
  | begin => cases h
  | commit => cases h
  | rollback => cases h
  | add => exact eq_of_add_refused h
  | remove => exact eq_of_remove_refused h
  | set => exact eq_of_set_refused h

end Workspace.Transaction

namespace Workspace

variable {t : Transaction} {w w' : Workspace}

theorem sink_within (hc : c.isControl = false) (com : State) (t : Transaction) :
    sink c ⟨com, some t⟩ = ((t.apply c).1, ⟨com, some (t.apply c).2⟩) := by
  cases c with
  | begin => cases hc
  | commit => cases hc
  | rollback => cases hc
  | add => rfl
  | remove => rfl
  | set => rfl

/-- Calls within a transaction do not touch what is committed, and leave the transaction open. -/
theorem send_within (hcs : ∀ c ∈ cs, c.isControl = false) (com : State) (t : Transaction) :
    sink.send cs ⟨com, some t⟩ = ((t.run cs).1, ⟨com, some (t.run cs).2⟩) := by
  induction cs generalizing t with
  | nil => rfl
  | cons c cs ih =>
      rw [List.forall_mem_cons] at hcs
      rw [Transaction.run, Sink.send, Sink.send, sink_within hcs.1]
      rcases t.apply c with ⟨e | u, t'⟩
      · rfl
      · exact ih hcs.2 t'

/-- A call that a workspace refuses changes nothing in it, its transaction included. -/
theorem eq_of_sink_refused (h : sink c w = (.error e, w')) : w' = w := by
  obtain ⟨com, pending⟩ := w
  cases pending with
  | none =>
      cases c with
      | begin => cases h
      | _ => cases h; rfl
  | some t =>
      cases hc : c.isControl with
      | false =>
          rw [sink_within hc, Prod.mk.injEq] at h
          obtain ⟨hrefused, rfl⟩ := h
          have hsame : (t.apply c).2 = t := Transaction.eq_of_apply_refused (Prod.ext hrefused rfl)
          rw [hsame]
      | true =>
          cases c with
          | begin => cases h; rfl
          | commit => cases h
          | rollback => cases h
          | _ => cases hc

end Workspace

/-! ### Replays -/

theorem Delta.isControl_of_mem_calls {d : Delta} {additions : List Node}
    (hc : c ∈ d.calls mode additions) : c.isControl = false := by
  rw [calls, List.mem_append, List.mem_append, List.mem_map, List.mem_map, List.mem_map] at hc
  rcases hc with (⟨n, -, rfl⟩ | ⟨n, -, rfl⟩) | ⟨p, -, rfl⟩
  · rfl
  · rfl
  · cases mode <;> rfl

namespace Comparison

open Workspace (Transaction State)

/-- A replay into a workspace without a transaction commits what its calls make of the graph, or
leaves the workspace as it was. -/
theorem replay_into_closed (c : Comparison) (mode : Replay.Mode) (com : State) :
    c.replay mode Workspace.sink ⟨com, none⟩ =
      match c.order with
      | .error e => (.error e, ⟨com, none⟩)
      | .ok additions =>
        match Transaction.run (c.delta.calls mode additions) ⟨com, ∅⟩ with
        | (.ok (), t) => (.ok c.delta.tally, ⟨t.state, none⟩)
        | (.error e, _) => (.error (.refused e), ⟨com, none⟩) := by
  rw [replay]
  cases c.order with
  | error e => rfl
  | ok additions =>
      have hbegin : Workspace.sink .begin ⟨com, none⟩ = (.ok (), ⟨com, some ⟨com, ∅⟩⟩) := rfl
      have hcontrol : ∀ a ∈ c.delta.calls mode additions, a.isControl = false :=
        fun a ha => Delta.isControl_of_mem_calls ha
      simp only [hbegin, Sink.send_append, Workspace.send_within hcontrol]
      rcases Transaction.run (c.delta.calls mode additions) ⟨com, ∅⟩ with ⟨e | u, t⟩
      · rfl
      · rfl

/-- A replay into a workspace with a transaction fails and changes nothing, the transaction
included. -/
theorem replay_into_open (c : Comparison) (mode : Replay.Mode) (com : State) (t : Transaction) :
    ∃ e, c.replay mode Workspace.sink ⟨com, some t⟩ = (.error e, ⟨com, some t⟩) := by
  rw [replay]
  cases c.order with
  | error e => exact ⟨e, rfl⟩
  | ok additions => exact ⟨.refused .transactionOpen, rfl⟩

theorem replay_cases (c : Comparison) (mode : Replay.Mode) (w : Workspace) :
    (∃ e, c.replay mode Workspace.sink w = (.error e, w)) ∨
    w.pending = none ∧ ∃ s, c.replay mode Workspace.sink w = (.ok c.delta.tally, ⟨s, none⟩) := by
  obtain ⟨com, pending⟩ := w
  cases pending with
  | some t => exact .inl (replay_into_open c mode com t)
  | none =>
      rw [replay_into_closed]
      cases c.order with
      | error e => exact .inl ⟨e, rfl⟩
      | ok additions =>
          rcases hrun : Transaction.run (c.delta.calls mode additions) ⟨com, ∅⟩ with ⟨e | u, t⟩
          · exact .inl ⟨.refused e, by simp only [hrun]⟩
          · exact .inr ⟨rfl, t.state, by simp only [hrun]⟩

/-- **A replay that fails changes nothing.**  Where it fails, the workspace is what it was before, its
transaction included; where it does not, no transaction was open, and none is open afterwards. -/
theorem replay_atomic (c : Comparison) (mode : Replay.Mode) (w : Workspace) :
    (∀ e, (c.replay mode Workspace.sink w).1 = .error e → (c.replay mode Workspace.sink w).2 = w) ∧
    (∀ t, (c.replay mode Workspace.sink w).1 = .ok t →
      w.pending = none ∧ (c.replay mode Workspace.sink w).2.pending = none) := by
  rcases c.replay_cases mode w with ⟨e, h⟩ | ⟨hw, s, h⟩
  · rw [h]
    refine ⟨fun _ _ => rfl, ?_⟩
    intro t ht
    cases ht
  · rw [h]
    refine ⟨?_, fun _ _ => ⟨hw, rfl⟩⟩
    intro e he
    cases he

end Comparison

end GraphDelta
