/-
**Captures.**

A capture is a sink that collects what is added into a snapshot.  It keeps null values, ignores the
calls that begin and end transactions, and refuses removals.

Main definitions:

* `Capture` — the snapshot so far;
* `Capture.sink` — the sink.
-/
import GraphDelta.Snapshot
import GraphDelta.Sink

set_option autoImplicit false

namespace GraphDelta

/-- The snapshot that a sink has collected. -/
abbrev Capture := Snapshot

namespace Capture

/-- Collects what is added. -/
def sink : Sink Capture := fun c s =>
  match c with
  | .add parent typeTag id index =>
    (.ok (), { s with nodes := s.nodes ++ [.make parent typeTag id index] })
  | .set id name type _ after =>
    (.ok (), { s with properties := s.properties ++ [.point id name type after] })
  | .remove _ id => (.error (.removal id), s)
  | .begin | .commit | .rollback => (.ok (), s)

end Capture

end GraphDelta
