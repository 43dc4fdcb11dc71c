/-
**The order in which objects are added.**

An object can be added once its parent is there, and siblings are added by their place.  A `Ranking`
of a batch of additions gives each one its depth: how many of its ancestors in a row belong to the
batch.  Additions are then sorted by depth and place, and additions that agree in both stay as they
were.

The parent of an addition is the one that its record names, but the ancestors above are looked up in
a map of objects.  A depth that is known already is not looked up again.

Main definitions:

* `Ranking` — the depths of a batch;
* `Ranking.ofBatch` — the ranking of a batch, unless ancestors in the batch run in a cycle;
* `Ranking.compare` — by depth, then by place;
* `Ranking.sort` — a batch in the order in which it can be added.
-/
import GraphDelta.Ascent
import GraphDelta.Fault

set_option autoImplicit false

namespace GraphDelta

/-- The depths of a batch of additions. -/
structure Ranking where
  depths : Std.ExtTreeMap Ident Nat

namespace Ranking

/-- The depth of an addition; objects outside the batch have depth zero. -/
def depth (r : Ranking) (id : Ident) : Nat := r.depths[id]?.getD 0

/-! ### Depths -/

/-- The parent of an object, where it is in the batch and in the map. -/
def batchParent? (batch : List Ident) (m : NodeMap) (n : Node) : Option Ident :=
  n.parent.filter fun p => batch.contains p && m.contains p

/-- Gives the objects of a path the depths from `d` on. -/
def assign (d : Nat) : List Ident → Ranking → Ranking
  | [], r => r
  | id :: path, r => assign (d + 1) path ⟨r.depths.insert id d⟩

/-- Ranks an addition and its ancestors in the batch, up to the first that is ranked already. -/
def settle (batch : List Ident) (m : NodeMap) (r : Ranking) (n : Node) : Except Fault Ranking :=
  let next (id : Ident) : Option Ident :=
    if id = n.id then batchParent? batch m n else m[id]?.bind (batchParent? batch m)
  match m.climb next r.depths.contains .empty n.id with
  | .top path => .ok (assign 0 path r)
  | .stopped known path => .ok (assign (r.depth known + 1) path r)
  | .looped entry => .error (.cycle entry)

/-- The ranking of a batch whose ancestors are looked up in `m`. -/
def ofBatch (additions : List Node) (m : NodeMap) : Except Fault Ranking :=
  additions.foldlM (settle (additions.map Node.id) m) ⟨∅⟩

/-! ### Sorting -/

/-- Orders additions by depth, then by place.  Different additions may compare equal. -/
def compare (r : Ranking) (a b : Node) : Ordering :=
  (Ord.compare (r.depth a.id) (r.depth b.id)).then (Ord.compare a.index.toInt b.index.toInt)

/-- The additions sorted by depth and place; equals stay as they were. -/
def sort (r : Ranking) (additions : List Node) : List Node :=
  stableSort (fun a b => (r.compare a b).isLE) additions

end Ranking

/-- The additions in an order in which they can be added. -/
def replayOrder (additions : List Node) (m : NodeMap) : Except Fault (List Node) := do
  return (← Ranking.ofBatch additions m).sort additions

end GraphDelta
