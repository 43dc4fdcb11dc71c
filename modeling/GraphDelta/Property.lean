/-
**Properties of objects.**

A `Property` is a typed value that an object has under a name.  It carries two values: in a snapshot
they agree, in a comparison they are the values before and after.

Main definitions:

* `ValueType` — the declared type of a value;
* `Property` — the record of a property, `Property.point` at a point in time and `Property.edit` of a
  change;
* `Property.Key` — owner and name, ordered by owner first;
* `Value.display` — a value as it is shown to a reader.
-/
import GraphDelta.Ident
import GraphDelta.Json.Printer

set_option autoImplicit false

namespace GraphDelta

/-! ### Declared types -/

/-- The declared type of a property's values.  It is a label: values are not checked against it. -/
inductive ValueType where
  | string
  | integer
  | long
  | double
  | boolean
  | reference
  | pngImage
  | null
deriving DecidableEq, Inhabited

namespace ValueType

/-- The name of the type in documents. -/
def name : ValueType → String
  | .string => "string"
  | .integer => "integer"
  | .long => "long"
  | .double => "double"
  | .boolean => "boolean"
  | .reference => "reference"
  | .pngImage => "png_image"
  | .null => "null"

def all : List ValueType :=
  [.string, .integer, .long, .double, .boolean, .reference, .pngImage, .null]

def ofName? (s : String) : Option ValueType := all.find? (·.name == s)

theorem ofName?_name (t : ValueType) : ofName? t.name = some t := by
  cases t <;> decide

end ValueType

/-- A value as it is shown to a reader: texts stand between quotes where the declared type is a text,
and bare otherwise; nothing in them is escaped. -/
def Value.display (type : ValueType) (v : Value) : String :=
  match v.json with
  | .string s => if type = .string then "\"" ++ s ++ "\"" else s
  | j => j.compact

/-! ### Records -/

/-- The record of a property. -/
structure Property where
  owner : Ident
  name : String
  type : ValueType
  before : Value
  after : Value
  /-- Whether the record tells a change. -/
  isEdit : Bool
deriving DecidableEq, Inhabited

namespace Property

/-- The record of a value at a point in time. -/
def point (owner : Ident) (name : String) (type : ValueType) (value : Value) : Property :=
  { owner, name, type, before := value, after := value, isEdit := false }

/-- The record of a change. -/
def edit (owner : Ident) (name : String) (type : ValueType) (before after : Value) : Property :=
  { owner, name, type, before, after, isEdit := true }

/-- A record with one value that tells no change is the record of that value. -/
theorem point_eq_self {p : Property} (hvalue : p.before = p.after) (hedit : p.isEdit = false) :
    point p.owner p.name p.type p.after = p := by
  cases p
  cases hvalue
  cases hedit
  rfl

/-- Whether two records hold one value under one declared type. -/
def sameValue (p q : Property) : Bool := p.type == q.type && p.after == q.after

/-- Equality of records, with `==` for their values. -/
instance : BEq Property where
  beq p q := p.owner == q.owner && p.name == q.name && p.type == q.type && p.before == q.before &&
    p.after == q.after && p.isEdit == q.isEdit

theorem beq_def (p q : Property) : (p == q) = (p.owner == q.owner && p.name == q.name &&
    p.type == q.type && p.before == q.before && p.after == q.after && p.isEdit == q.isEdit) := rfl

instance : EquivBEq Property where
  rfl {p} := by simp [beq_def]
  symm {p q} h := by
    simp only [beq_def, Bool.and_eq_true, beq_iff_eq] at h ⊢
    obtain ⟨⟨⟨⟨⟨h₁, h₂⟩, h₃⟩, h₄⟩, h₅⟩, h₆⟩ := h
    exact ⟨⟨⟨⟨⟨h₁.symm, h₂.symm⟩, h₃.symm⟩, BEq.symm h₄⟩, BEq.symm h₅⟩, h₆.symm⟩
  trans {p q r} h k := by
    simp only [beq_def, Bool.and_eq_true, beq_iff_eq] at h k ⊢
    obtain ⟨⟨⟨⟨⟨h₁, h₂⟩, h₃⟩, h₄⟩, h₅⟩, h₆⟩ := h
    obtain ⟨⟨⟨⟨⟨k₁, k₂⟩, k₃⟩, k₄⟩, k₅⟩, k₆⟩ := k
    exact ⟨⟨⟨⟨⟨h₁.trans k₁, h₂.trans k₂⟩, h₃.trans k₃⟩, PartialEquivBEq.trans h₄ k₄⟩,
      PartialEquivBEq.trans h₅ k₅⟩, h₆.trans k₆⟩

/-! ### Keys -/

/-- What tells the properties of a snapshot apart. -/
structure Key where
  owner : Ident
  name : String
deriving DecidableEq, Inhabited

namespace Key

/-- Keys are ordered by owner, and by name for one owner. -/
instance : Ord Key where
  compare := compareLex (compareOn Key.owner) (compareOn Key.name)

theorem compare_def (a b : Key) :
    compare a b = (compare a.owner b.owner).then (compare a.name b.name) := rfl

instance : Std.TransOrd Key :=
  inferInstanceAs (Std.TransCmp (compareLex (compareOn Key.owner) (compareOn Key.name)))

instance : Std.LawfulEqOrd Key where
  eq_of_compare {a b} h := by
    rw [compare_def, Ordering.then_eq_eq] at h
    cases a; cases b
    simp only [Key.mk.injEq]
    exact ⟨Std.LawfulEqOrd.eq_of_compare h.1, Std.LawfulEqOrd.eq_of_compare h.2⟩

/-- The key as it appears in messages. -/
def text (k : Key) : String := k.owner.text ++ "#" ++ k.name

end Key

def key (p : Property) : Key := ⟨p.owner, p.name⟩

end Property

end GraphDelta
