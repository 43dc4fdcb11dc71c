/-
**Snapshot documents.**

A snapshot is kept as a JSON document with two lists.  A record is written as an object, one member a
field; it may also be read from a list of its fields in their declared order.  Fields with a default
may be missing, in list form only at the end; a field given twice is an error, and a member of unknown
name is passed over.  A property is written with the value after, and read as a point in time.

Main definitions:

* `Json.Concrete.fields?` — the fields of a record, in either form;
* `Snapshot.write` — the document of a snapshot;
* `Snapshot.read` — the snapshot of a document, which must be valid.
-/
import GraphDelta.Json.Reader
import GraphDelta.Snapshot

set_option autoImplicit false

namespace GraphDelta

/-! ### Fields of a record -/

namespace Json.Concrete

/-- The names of the members of an object; half of a surrogate pair alone is not allowed in them. -/
def names? : List (List Nat × Concrete) → Option (List (String × Concrete))
  | [] => some []
  | (codes, x) :: ms => do
    let name ← resolveText? codes
    let ms ← names? ms
    return (name, x) :: ms

/-- The one member of the given name, if there is any; two are an error. -/
def only? (members : List (String × Concrete)) (name : String) : Option (Option Concrete) :=
  match members.filter (·.1 == name) with
  | [] => some none
  | [(_, x)] => some (some x)
  | _ => none

/-- What a record gives for each of the named fields, in the order of the names. -/
def fields? (names : List String) : Concrete → Option (List (Option Concrete))
  | .object ms => do
    let ms ← names? ms
    names.mapM (only? ms)
  | .array xs =>
    if xs.length ≤ names.length then
      some (xs.map some ++ List.replicate (names.length - xs.length) none)
    else none
  | _ => none

/-! ### Values of fields -/

def text? : Concrete → Option String
  | .text codes => resolveText? codes
  | _ => none

/-- An integer of 32 bits, spelled without fraction and exponent. -/
def int32? : Concrete → Option Int32
  | .number l =>
    match Number.ofLiteral? l with
    | some (.integer n _) =>
      if -0x80000000 ≤ n ∧ n < 0x80000000 then some (Int32.ofInt n) else none
    | _ => none
  | _ => none

/-- A list whose items are read by `f`. -/
def list? {α : Type} (f : Concrete → Option α) : Concrete → Option (List α)
  | .array xs => xs.mapM f
  | _ => none

end Json.Concrete

open Json (Concrete)

/-- The name of a type, or an object of that one name which holds null. -/
def ValueType.read? : Concrete → Option ValueType
  | .text codes => (Concrete.resolveText? codes).bind ofName?
  | .object [(codes, .null)] => (Concrete.resolveText? codes).bind ofName?
  | _ => none

/-! ### Objects -/

namespace Node

/-- The fields of an object, in their declared order. -/
def fieldNames : List String := ["parent_id", "type_tag", "id", "sibling_index"]

/-- A parent: none where it is null or the empty text. -/
def readParent? : Concrete → Option (Option Ident)
  | .null => some none
  | x => x.text?.map fun s => Ident.nonempty? ⟨s⟩

def read? (x : Concrete) : Option Node := do
  match ← x.fields? fieldNames with
  | [parent, some typeTag, some id, some index] =>
    let parent ← match parent with
      | some p => readParent? p
      | none => some none
    return { parent, typeTag := ← typeTag.text?, id := ⟨← id.text?⟩, index := ← index.int32? }
  | _ => none

def toJson (n : Node) : Json := .object [
  ("parent_id", match n.parent with | some p => .string p.text | none => .null),
  ("type_tag", .string n.typeTag),
  ("id", .string n.id.text),
  ("sibling_index", .ofInt n.index.toInt)]

end Node

/-! ### Properties -/

namespace Property

/-- The fields of a property at a point in time, in their declared order. -/
def fieldNames : List String := ["object_id", "name", "data_type", "value"]

/-- How deep a value may nest: the document, the list and the record are three levels. -/
def valueNestingLimit : Nat := Json.nestingLimit - 3

/-- The property that a record describes; a missing value is null. -/
def read? (x : Concrete) : Option Property := do
  match ← x.fields? fieldNames with
  | [some owner, some name, some type, value] =>
    let value ← match value with
      | some v => v.resolve? valueNestingLimit
      | none => some .null
    return point ⟨← owner.text?⟩ (← name.text?) (← ValueType.read? type) (.ofJson value)
  | _ => none

/-- The record of a property at a point in time: the value is the one after. -/
def toPointJson (p : Property) : Json := .object [
  ("object_id", .string p.owner.text),
  ("name", .string p.name),
  ("data_type", .string p.type.name),
  ("value", p.after.json)]

end Property

/-! ### Documents -/

namespace Snapshot

/-- The fields of a document, in their declared order. -/
def fieldNames : List String := ["objects", "properties"]

/-- The snapshot that a document describes, valid or not. -/
def ofConcrete? (x : Concrete) : Option Snapshot := do
  match ← x.fields? fieldNames with
  | [nodes, properties] =>
    let nodes ← match nodes with
      | some xs => xs.list? Node.read?
      | none => some []
    let properties ← match properties with
      | some xs => xs.list? Property.read?
      | none => some []
    return { nodes, properties }
  | _ => none

/-- Reads a document; the snapshot must be valid. -/
def read (text : String) : Except Error Snapshot := do
  match (Concrete.parse? text).bind ofConcrete? with
  | some s =>
    s.validate
    return s
  | none => throw .malformed

def toJson (s : Snapshot) : Json := .object [
  ("objects", .array (s.nodes.map Node.toJson)),
  ("properties", .array (s.properties.map Property.toPointJson))]

def write (s : Snapshot) : String := s.toJson.pretty

end Snapshot

end GraphDelta
