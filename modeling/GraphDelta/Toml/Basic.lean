/-
**TOML tables.**

A document is a table of keys and values.  While it is read, a table also remembers how it came about:
from a header of its own, from the header of a table inside it, or from a dotted key.  That decides
what may still be added to it: a header opens a table at most once, and a dotted key never reaches
into a table that has a header.

Main definitions:

* `Toml` — a value; of numbers, truth values and dates it only says that it is one;
* `Toml.Item`, `Toml.Members` — a table under construction;
* `Toml.Members.reach?` — goes down a path of keys, making the tables that are missing;
* `Toml.Members.put?`, `Toml.Members.openTable?`, `Toml.Members.openElement?` — adds a key and its
  value, a table and an element of a list of tables;
* `Toml.Item.close` — the value that an item has become.
-/

set_option autoImplicit false

namespace GraphDelta

/-- A TOML value. -/
inductive Toml where
  | text (value : String)
  | scalar
  | list (items : List Toml)
  | table (members : List (String × Toml))
deriving Inhabited

namespace Toml

/-- How a table came about. -/
inductive Origin where
  | header
  /-- From the header of a table inside it. -/
  | implied
  | dotted
deriving DecidableEq

/-- What stands under a key while a document is read. -/
inductive Item where
  | value (v : Toml)
  | table (origin : Origin) (members : List (String × Item))
  /-- A list of tables, the last one first. -/
  | tables (elements : List (List (String × Item)))
deriving Inhabited

/-- Keys and what stands under them. -/
abbrev Members := List (String × Item)

namespace Members

def replace (key : String) (item : Item) (ms : Members) : Members :=
  ms.map fun (k, x) => if k == key then (k, item) else (k, x)

/-- Goes down a path of keys, making the tables that are missing with the given origin, and changes the
table at its end.  In a list of tables the path leads to the last one. -/
def reach? (made : Origin) (change : Origin → Members → Option Members) :
    List String → Origin → Members → Option Members
  | [], origin, ms => change origin ms
  | key :: path, _, ms =>
    match ms.lookup key with
    | none => do
      let inner ← reach? made change path made []
      return ms ++ [(key, .table made inner)]
    | some (.value _) => none
    | some (.table origin inner) =>
      if made = .dotted ∧ origin = .header then none
      else do
        let inner ← reach? made change path origin inner
        return ms.replace key (.table origin inner)
    | some (.tables []) => none
    | some (.tables (last :: others)) => do
      let last ← reach? made change path .header last
      return ms.replace key (.tables (last :: others))

/-- Adds a value under a dotted key.  The key must be free, and the table that holds it must have come
from dotted keys alone. -/
def put? (path : List String) (key : String) (v : Toml) (ms : Members) : Option Members :=
  let add (origin : Origin) (ms : Members) : Option Members :=
    if (ms.lookup key).isSome ∨ (path ≠ [] ∧ origin ≠ .dotted) then none
    else some (ms ++ [(key, .value v)])
  reach? .dotted add path .header ms

/-- Opens a table by its header, once. -/
def openTable? (path : List String) (key : String) (ms : Members) : Option Members :=
  let enter (_ : Origin) (ms : Members) : Option Members :=
    match ms.lookup key with
    | none => some (ms ++ [(key, .table .header [])])
    | some (.table .implied inner) => some (ms.replace key (.table .header inner))
    | _ => none
  reach? .implied enter path .header ms

/-- Adds a table to a list of tables by its header. -/
def openElement? (path : List String) (key : String) (ms : Members) : Option Members :=
  let enter (_ : Origin) (ms : Members) : Option Members :=
    match ms.lookup key with
    | none => some (ms ++ [(key, .tables [[]])])
    | some (.tables elements) => some (ms.replace key (.tables ([] :: elements)))
    | _ => none
  reach? .implied enter path .header ms

end Members

mutual

/-- The value that an item has become. -/
def Item.close : Item → Toml
  | .value v => v
  | .table _ ms => .table (Item.closeMembers ms)
  | .tables elements => .list (Item.closeElements elements).reverse

def Item.closeMembers : List (String × Item) → List (String × Toml)
  | [] => []
  | (key, x) :: ms => (key, Item.close x) :: Item.closeMembers ms

def Item.closeElements : List (List (String × Item)) → List Toml
  | [] => []
  | ms :: elements => .table (Item.closeMembers ms) :: Item.closeElements elements

end

end Toml

end GraphDelta
