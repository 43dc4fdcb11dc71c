/-
**Blanks.**

The characters that leave a blank space, by the property `White_Space` of the Unicode Standard.

Main definitions:

* `Text.blanks` — the code points, as closed ranges in ascending order;
* `Text.isBlank` — whether a character is one of them;
* `Text.trimEnd` — a text without the blanks at its end.
-/

set_option autoImplicit false

namespace GraphDelta.Text

/-- The code points that leave a blank space, as closed ranges. -/
def blanks : List (Nat × Nat) := [
  (0x9, 0xd), (0x20, 0x20), (0x85, 0x85), (0xa0, 0xa0), (0x1680, 0x1680), (0x2000, 0x200a),
  (0x2028, 0x2029), (0x202f, 0x202f), (0x205f, 0x205f), (0x3000, 0x3000)]

def isBlank (c : Char) : Bool := blanks.any fun (a, b) => a ≤ c.toNat && c.toNat ≤ b

/-- The characters without the blanks at their end. -/
def dropEnd (cs : List Char) : List Char := (cs.reverse.dropWhile isBlank).reverse

def trimEnd (s : String) : String := String.ofList (dropEnd s.toList)

end GraphDelta.Text
