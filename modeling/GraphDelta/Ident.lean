/-
**Identifiers.**

Every object of a graph carries an identifier: a text compared exactly, and ordered by the bytes of
its encoding.  That order decides every ascending list of the library, so it is proved here to be a
linear order in the sense of `Std.TransOrd` and `Std.LawfulEqOrd`, which makes identifiers keys of
`Std.ExtTreeMap`.

Main definitions:

* `Ident` — an identifier;
* `Ident.nonempty?` — an identifier read as an optional one: the empty text names nothing.

Main results:

* `Ident.compare_def` — identifiers are ordered as their texts;
* `Ident.nonempty?_eq_some_iff` — the texts that name something.
-/
import Std.Data.ExtTreeMap
import Std.Data.ExtTreeSet

set_option autoImplicit false

namespace GraphDelta

/-- The name of an object within a graph. -/
structure Ident where
  text : String
deriving DecidableEq, Inhabited

namespace Ident

/-! ### Order -/

instance : Ord Ident := ⟨fun a b => compare a.text b.text⟩

/-- Identifiers are ordered as their texts. -/
theorem compare_def (a b : Ident) : compare a b = compare a.text b.text := rfl

instance : Std.TransOrd Ident where
  eq_swap := Std.OrientedOrd.eq_swap (α := String)
  isLE_trans := Std.TransOrd.isLE_trans (α := String)

instance : Std.LawfulEqOrd Ident where
  compare_self := Std.ReflOrd.compare_self (α := String)
  eq_of_compare {a b} h := by
    cases a; cases b
    exact congrArg Ident.mk (Std.LawfulEqOrd.eq_of_compare (α := String) h)

/-! ### The empty identifier -/

def isEmpty (a : Ident) : Bool := a.text.isEmpty

/-- The identifier, unless it is the empty text: where a parent is written, the empty text stands
for no parent. -/
def nonempty? (a : Ident) : Option Ident := if a.isEmpty then none else some a

theorem nonempty?_eq_some_iff {a b : Ident} : a.nonempty? = some b ↔ a = b ∧ a.isEmpty = false := by
  unfold nonempty?
  split <;> simp_all

/-! ### In messages -/

/-- The identifier with its role spelled out; the text itself is not escaped. -/
def describe (a : Ident) : String := "ObjectId(" ++ a.text ++ ")"

/-- An optional identifier with its role spelled out. -/
def describeOption : Option Ident → String
  | none => "None"
  | some a => "Some(" ++ a.describe ++ ")"

end Ident

end GraphDelta
