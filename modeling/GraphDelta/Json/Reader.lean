/-
**What a JSON document means.**

The second step of reading: the texts and numbers of a concrete form are resolved.  A document means
something when no text holds half of a surrogate pair, no number is too large, and lists and objects
do not nest too deeply.

Main definitions:

* `Json.Concrete.resolveText?` — the text that a list of code numbers spells;
* `Json.Concrete.resolve?` — the tree that a concrete form stands for, within a nesting limit;
* `Json.nestingLimit` — the nesting limit of a whole document;
* `Json.parse?` — the tree of a document.
-/
import GraphDelta.Json.Basic
import GraphDelta.Json.Concrete

set_option autoImplicit false

namespace GraphDelta.Json

namespace Concrete

/-! ### Texts -/

/-- Whether the code is the first half of a surrogate pair. -/
def isHighSurrogate (n : Nat) : Bool := 0xd800 ≤ n && n < 0xdc00

def isLowSurrogate (n : Nat) : Bool := 0xdc00 ≤ n && n < 0xe000

/-- The characters that the codes spell; half of a surrogate pair alone spells none. -/
def resolveCodes? : List Nat → Option (List Char)
  | [] => some []
  | [n] => if isHighSurrogate n || isLowSurrogate n then none else some [Char.ofNat n]
  | n :: m :: rest =>
    if isHighSurrogate n then
      if isLowSurrogate m then do
        let cs ← resolveCodes? rest
        return Char.ofNat (0x10000 + (n - 0xd800) * 0x400 + (m - 0xdc00)) :: cs
      else none
    else if isLowSurrogate n then none
    else do
      let cs ← resolveCodes? (m :: rest)
      return Char.ofNat n :: cs

def resolveText? (codes : List Nat) : Option String := (resolveCodes? codes).map String.ofList

/-! ### Trees -/

mutual

/-- The tree that a concrete form stands for, if lists and objects nest at most `limit` deep. -/
def resolve? (limit : Nat) : Concrete → Option Json
  | .null => some .null
  | .bool b => some (.bool b)
  | .number l => (Number.ofLiteral? l).map .number
  | .text codes => (resolveText? codes).map .string
  | .array xs =>
    match limit with
    | 0 => none
    | limit + 1 => (resolveItems? limit xs).map .array
  | .object ms =>
    match limit with
    | 0 => none
    | limit + 1 => (resolveMembers? limit ms).map .object

def resolveItems? (limit : Nat) : List Concrete → Option (List Json)
  | [] => some []
  | x :: xs => do
    let x ← resolve? limit x
    let xs ← resolveItems? limit xs
    return x :: xs

def resolveMembers? (limit : Nat) : List (List Nat × Concrete) → Option (List (String × Json))
  | [] => some []
  | (name, x) :: ms => do
    let name ← resolveText? name
    let x ← resolve? limit x
    let ms ← resolveMembers? limit ms
    return (name, x) :: ms

end

end Concrete

/-! ### Documents -/

/-- How deep the lists and objects of a document may nest. -/
def nestingLimit : Nat := 127

def parse? (text : String) : Option Json :=
  (Concrete.parse? text).bind (Concrete.resolve? nestingLimit)

end GraphDelta.Json
