/-
**Transcripts.**

A transcript is a sink that accepts every call and writes it down.

Main definitions:

* `Transcript` — the calls so far, in order;
* `Transcript.sink` — the sink.
-/
import GraphDelta.Sink

set_option autoImplicit false

namespace GraphDelta

/-- The calls that a sink received, in order. -/
abbrev Transcript := List Call

/-- Accepts every call and writes it down. -/
def Transcript.sink : Sink Transcript := fun c calls => (.ok (), calls ++ [c])

end GraphDelta
