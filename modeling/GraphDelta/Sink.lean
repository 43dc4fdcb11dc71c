/-
**Sinks.**

A sink takes calls that change a graph, between a call that begins a transaction and one that commits
it or rolls it back.  It answers each call, and its state after the call may depend on the call even
where it refuses it.

Main definitions:

* `Call` — the calls;
* `Sink` — a sink with states of a given type;
* `Sink.send` — sends calls until one is refused.

Main results:

* `Sink.send_append` — sending two runs of calls is sending the second after the first;
* `Sink.send_cons_eq_ok_iff`, `Sink.send_append_eq_ok_iff` — when such runs go through.
-/
import GraphDelta.Fault

set_option autoImplicit false

namespace GraphDelta

/-- A call to a sink. -/
inductive Call where
  | begin
  | commit
  | rollback
  | add (parent : Option Ident) (typeTag : String) (id : Ident) (index : Int32)
  /-- Removes the object that hangs under the given parent, with everything below it. -/
  | remove (parent : Option Ident) (id : Ident)
  /-- Sets a property; where a value before is given, the sink may insist on it. -/
  | set (id : Ident) (name : String) (type : ValueType) (before : Option Value) (after : Value)
deriving DecidableEq

namespace Call

def isRemoval (c : Call) : Bool := c matches .remove ..

def isAddition (c : Call) : Bool := c matches .add ..

def isEdit (c : Call) : Bool := c matches .set ..

/-- Whether the call begins or ends a transaction. -/
def isControl (c : Call) : Bool := c matches .begin | .commit | .rollback

/-- The call without the value that it insists on. -/
def unconditional : Call → Call
  | .set id name type _ after => .set id name type none after
  | c => c

end Call

/-- A sink: the answer to a call, and the state after it. -/
abbrev Sink (σ : Type) := Call → σ → Except Refusal Unit × σ

namespace Sink

variable {σ : Type}

/-- Sends calls one after the other until one is refused. -/
def send (sink : Sink σ) : List Call → σ → Except Refusal Unit × σ
  | [], s => (.ok (), s)
  | c :: cs, s =>
    match sink c s with
    | (.ok (), s) => send sink cs s
    | (.error e, s) => (.error e, s)

theorem send_append (sink : Sink σ) (cs ds : List Call) (s : σ) :
    sink.send (cs ++ ds) s =
      match sink.send cs s with
      | (.ok (), t) => sink.send ds t
      | (.error e, t) => (.error e, t) := by
  induction cs generalizing s with
  | nil => rfl
  | cons c cs ih =>
    simp only [List.cons_append, send]
    rcases sink c s with ⟨e | u, t⟩
    · rfl
    · exact ih t

variable {sink : Sink σ} {c : Call} {cs ds : List Call} {s t : σ}

theorem send_cons_eq_ok_iff :
    sink.send (c :: cs) s = (.ok (), t) ↔
      ∃ s', sink c s = (.ok (), s') ∧ sink.send cs s' = (.ok (), t) := by
  rw [send]
  rcases sink c s with ⟨e | u, s'⟩
  · simp
  · simp

theorem send_append_eq_ok_iff : sink.send (cs ++ ds) s = (.ok (), t) ↔
    ∃ s', sink.send cs s = (.ok (), s') ∧ sink.send ds s' = (.ok (), t) := by
  rw [send_append]
  rcases sink.send cs s with ⟨e | u, s'⟩
  · simp
  · simp

end Sink

end GraphDelta
