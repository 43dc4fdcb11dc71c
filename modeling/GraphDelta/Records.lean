/-
**Records of results.**

Differences, outlines and calls as JSON documents.  The members of an object stand in the order in
which its fields are declared.

Main definitions:

* `Delta.toJson`, `Outline.Entry.toJson`, `Call.toJson`, `Replay.Tally.toJson` — the documents.
-/
import GraphDelta.Outline
import GraphDelta.Replay
import GraphDelta.Snapshot.Document

set_option autoImplicit false

namespace GraphDelta

def Ident.optionToJson : Option Ident → Json
  | some a => .string a.text
  | none => .null

/-! ### Differences -/

/-- The full record of a property, with both values. -/
def Property.toJson (p : Property) : Json := .object [
  ("object_id", .string p.owner.text),
  ("name", .string p.name),
  ("data_type", .string p.type.name),
  ("old_value", p.before.json),
  ("new_value", p.after.json),
  ("from_diff", .bool p.isEdit)]

def Delta.toJson (d : Delta) : Json := .object [
  ("to_add", .array (d.additions.map Node.toJson)),
  ("to_remove", .array (d.removals.map Node.toJson)),
  ("property_changes", .array (d.edits.map Property.toJson))]

/-! ### Outlines -/

namespace Outline

def Status.name : Status → String
  | .same => "same"
  | .removed => "left_only"
  | .added => "right_only"
  | .edited => "modified"

def Detail.toJson (d : Detail) : Json := .object [
  ("name", .string d.name),
  ("old_value", .string d.before),
  ("new_value", .string d.after)]

def Entry.toJson (e : Entry) : Json := .object [
  ("id", .string e.id.text),
  ("kind", .string e.status.name),
  ("type_name", .string e.typeName),
  ("name", match e.title with | some title => .string title | none => .null),
  ("depth", .ofInt e.depth),
  ("property_changes", .array (e.details.map Detail.toJson))]

end Outline

/-! ### Replays -/

/-- The document of a call; a set call has a value before only where it insists on one. -/
def Call.toJson : Call → Json
  | .begin => .object [("op", .string "begin")]
  | .commit => .object [("op", .string "commit")]
  | .rollback => .object [("op", .string "rollback")]
  | .add parent typeTag id index => .object [
      ("op", .string "add_object"),
      ("parent_id", Ident.optionToJson parent),
      ("type_tag", .string typeTag),
      ("id", .string id.text),
      ("sibling_index", .ofInt index.toInt)]
  | .remove parent id => .object [
      ("op", .string "remove_object"),
      ("parent_id", Ident.optionToJson parent),
      ("id", .string id.text)]
  | .set id name type before after => .object <|
      [("op", .string "set_property"),
       ("id", .string id.text),
       ("name", .string name),
       ("data_type", .string type.name)] ++
      (match before with | some v => [("old_value", v.json)] | none => []) ++
      [("new_value", after.json)]

def Replay.Tally.toJson (t : Replay.Tally) : Json := .object [
  ("added", .ofInt t.added),
  ("properties", .ofInt t.edited),
  ("removed", .ofInt t.removed)]

end GraphDelta
