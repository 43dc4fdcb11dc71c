/-
**Comparisons.**

A `Comparison` is made at most once.  It starts fresh; comparing two snapshots either yields their
difference or fails, and both ends are final.  A failed comparison still knows the two snapshots, but
holds no changes.

Main definitions:

* `Comparison` — fresh, failed or done;
* `Comparison.compare` — compares two snapshots;
* `Comparison.ofSnapshots` — a comparison that is done;
* `Comparison.sort`, `Comparison.order`, `Comparison.omitRoot` — work on the additions;
* `Comparison.typeName` — the simple type of an object.
-/
import GraphDelta.Delta
import GraphDelta.Ranking

set_option autoImplicit false

namespace GraphDelta

/-- A comparison of two snapshots. -/
inductive Comparison where
  | fresh
  | failed (old new : Catalog)
  | done (old new : Catalog) (delta : Delta)
deriving Inhabited

namespace Comparison

/-! ### What a comparison holds -/

def old : Comparison → Catalog
  | fresh => .empty
  | failed old _ | done old _ _ => old

def new : Comparison → Catalog
  | fresh => .empty
  | failed _ new | done _ new _ => new

/-- The changes; there are none unless the comparison is done. -/
def delta : Comparison → Delta
  | fresh | failed _ _ => .empty
  | done _ _ delta => delta

def isDone : Comparison → Bool
  | done _ _ _ => true
  | _ => false

/-- The changes of a comparison that is done. -/
def delta? : Comparison → Except Fault Delta
  | done _ _ delta => .ok delta
  | _ => .error .notCompared

/-! ### Comparing -/

/-- Compares two snapshots, if nothing has been compared yet. -/
def compare (c : Comparison) (old new : Snapshot) : Except Fault Unit × Comparison :=
  match c with
  | fresh =>
    let o := Catalog.ofSnapshot old
    let n := Catalog.ofSnapshot new
    match Delta.between o n with
    | .ok delta => (.ok (), done o n delta)
    | .error e => (.error e, failed o n)
  | c => (.error .alreadyCompared, c)

def ofSnapshots (old new : Snapshot) : Except Fault Comparison := do
  let (result, c) := fresh.compare old new
  result
  return c

/-! ### Additions -/

/-- The additions in an order in which they can be made. -/
def order (c : Comparison) : Except Fault (List Node) := do
  replayOrder (← c.delta?).additions c.new.nodes

def sort (c : Comparison) : Except Fault Comparison :=
  match c with
  | done old new delta => do
    return done old new { delta with additions := ← replayOrder delta.additions new.nodes }
  | _ => .error .notCompared

/-- Leaves out the first addition under `place`, and tells whether there is one. -/
def omitRoot (c : Comparison) (place : Ident) (newRoot : Option Ident) :
    Except Fault (Bool × Comparison) :=
  match c with
  | done old new delta =>
    match delta.omitRoot? place newRoot with
    | some delta => .ok (true, done old new delta)
    | none => .ok (false, done old new delta)
  | _ => .error .notCompared

/-! ### Objects -/

/-- The record of an object, in the old snapshot if it is there. -/
def node? (c : Comparison) (id : Ident) : Option Node := c.old.nodes[id]?.or c.new.nodes[id]?

/-- The simple type of an object, in the old snapshot if it is there. -/
def typeName (c : Comparison) (id : Ident) : Except Fault String :=
  match c.node? id with
  | some n => .ok n.simpleType
  | none => .error (.unresolved id)

end Comparison

end GraphDelta
