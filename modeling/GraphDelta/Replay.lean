/-
**Replaying a comparison.**

A replay sends the changes of a comparison to a sink as one transaction: the removals, the additions
in an order in which they can be made, and the property edits.  When a call within the transaction is
refused, the commit included, the transaction is rolled back and the replay fails with the reason of
that call, whatever the sink answers to the rollback.

Main definitions:

* `Replay.Mode` — whether edits insist on the value before;
* `Replay.Tally` — how many calls of each kind a replay made;
* `Delta.calls` — the calls of a difference between the begin and the commit;
* `Comparison.replay` — the replay.
-/
import GraphDelta.Comparison
import GraphDelta.Sink

set_option autoImplicit false

namespace GraphDelta

namespace Replay

/-- How property edits are sent. -/
inductive Mode where
  | plain
  /-- With both values, so that the sink can insist on the value before. -/
  | conditional
deriving DecidableEq, Inhabited

/-- The numbers of calls of a replay that succeeded. -/
structure Tally where
  removed : Nat
  added : Nat
  edited : Nat
deriving DecidableEq

end Replay

/-! ### Calls -/

def Node.removal (n : Node) : Call := .remove n.parent n.id

def Node.addition (n : Node) : Call := .add n.parent n.typeTag n.id n.index

/-- The call that makes an edit. -/
def Property.call (mode : Replay.Mode) (p : Property) : Call :=
  match mode with
  | .plain => .set p.owner p.name p.type none p.after
  | .conditional => .set p.owner p.name p.type (some p.before) p.after

namespace Delta

/-- The calls between begin and commit, for additions in the given order. -/
def calls (d : Delta) (mode : Replay.Mode) (additions : List Node) : List Call :=
  d.removals.map Node.removal ++ additions.map Node.addition ++ d.edits.map (Property.call mode)

def tally (d : Delta) : Replay.Tally := ⟨d.removals.length, d.additions.length, d.edits.length⟩

end Delta

/-! ### Replay -/

namespace Comparison

variable {σ : Type}

/-- Sends the changes to a sink as one transaction. -/
def replay (c : Comparison) (mode : Replay.Mode) (sink : Sink σ) (s : σ) :
    Except Fault Replay.Tally × σ :=
  match c.order with
  | .error e => (.error e, s)
  | .ok additions =>
    match sink .begin s with
    | (.error e, s) => (.error (.refused e), s)
    | (.ok (), s) =>
      match sink.send (c.delta.calls mode additions ++ [.commit]) s with
      | (.ok (), s) => (.ok c.delta.tally, s)
      | (.error e, s) => (.error (.refused e), (sink .rollback s).2)

end Comparison

end GraphDelta
