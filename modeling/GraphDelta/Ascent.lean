/-
**Climbing along pointers.**

A partial function on identifiers points from each one to at most one other.  Climbing follows the
pointers from a start until one of three things happens: an identifier has no pointer, it is a goal,
or it comes up for the second time.  In a graph of objects the pointers are parents, and the third case
is a cycle.

Main definitions:

* `Trail` — what a climb has left behind, as a list and as a set;
* `Ascent` — how a climb ends;
* `climb` — the climb, with a bound on the number of steps;
* `NodeMap.climb` — a climb over the objects of a map, with a bound that is never reached.

Main results:

* `Trail.contains_met_iff` — the set holds what the list holds.
-/
import GraphDelta.Catalog

set_option autoImplicit false

namespace GraphDelta

/-! ### Trails -/

/-- What a climb has left behind. -/
structure Trail where
  /-- The identifiers, the last one first. -/
  path : List Ident
  met : Std.ExtTreeSet Ident
  mem_met : ∀ id : Ident, id ∈ met ↔ id ∈ path

namespace Trail

def empty : Trail := ⟨[], ∅, by simp⟩

def push (t : Trail) (id : Ident) : Trail where
  path := id :: t.path
  met := t.met.insert id
  mem_met a := by
    rw [Std.ExtTreeSet.mem_insert, t.mem_met, Std.LawfulEqOrd.compare_eq_iff_eq, List.mem_cons,
      eq_comm]

theorem contains_met_iff {t : Trail} {id : Ident} : t.met.contains id ↔ id ∈ t.path := by
  rw [← Std.ExtTreeSet.mem_iff_contains, t.mem_met]

end Trail

/-! ### Climbs -/

/-- How a climb ends. -/
inductive Ascent where
  | top (path : List Ident)
  /-- A goal is reached.  The path holds what was visited before, the last one first. -/
  | stopped (goal : Ident) (path : List Ident)
  | looped (entry : Ident)
deriving DecidableEq

/-- Climbs from `x` along `next`, at the end of a trail, until a goal, the top or a loop.  The number
bounds the steps. -/
def climb (next : Ident → Option Ident) (goal : Ident → Bool) : Nat → Trail → Ident → Ascent
  | 0, t, _ => .top t.path
  | fuel + 1, t, x =>
    if goal x then .stopped x t.path
    else if t.met.contains x then .looped x
    else
      match next x with
      | none => .top (x :: t.path)
      | some y => climb next goal fuel (t.push x) y

/-- Climbs over the objects of a map: but for the first identifier, only those of the map point on, so
a climb takes at most two steps more than there are objects. -/
def NodeMap.climb (m : NodeMap) (next : Ident → Option Ident) (goal : Ident → Bool) (t : Trail)
    (x : Ident) : Ascent := GraphDelta.climb next goal (m.size + 2) t x

end GraphDelta
