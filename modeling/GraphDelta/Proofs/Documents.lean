/-
**Snapshots in documents.**

What is written for a snapshot is read as the same snapshot, as far as its document can tell it: a
document knows no empty parent, one value of each property only, and no value that nests too deeply.
Floating-point numbers are left out, as the reader may miss their last bits.

Whatever is read from a document, however that is spelled, can be told in this way.  So what is written
for it is read as the same snapshot, and is written in the same way again.

Main definitions:

* `Snapshot.Named` — no identifier, owner or name is the empty text;
* `Snapshot.Writable` — what the document of a snapshot can tell.

Main results:

* `Json.Concrete.fields?_spelling` — a record that is written gives all its fields;
* `Node.read?_toJson`, `Property.read?_toPointJson` — **records are read as they were written**;
* `Snapshot.Writable.ofConcrete?_write` — so are snapshots;
* `Snapshot.writable_of_ofConcrete?` — **what is read can be written**;
* `Snapshot.read_write` — **a document is read as the snapshot that it was written for**;
* `Snapshot.write_read` — **what is written for a document is a fixed point**.
-/
import GraphDelta.Proofs.Nesting
import GraphDelta.Snapshot.Document

set_option autoImplicit false

namespace GraphDelta

open Json (Concrete)

variable {n : Node} {p : Property} {s : Snapshot} {x : Concrete}

/-! ### Lists of answers -/

theorem mapM_map_eq_some {α β γ : Type} {f : β → Option γ} {g : α → β} {k : α → γ} {l : List α}
    (h : ∀ a ∈ l, f (g a) = some (k a)) : (l.map g).mapM f = some (l.map k) := by
  induction l with
  | nil => rfl
  | cons a l ih =>
      have hl := ih fun b hb => h b (List.mem_cons_of_mem a hb)
      rw [List.map_cons, List.mapM_cons, h a List.mem_cons_self, hl]
      rfl

theorem exists_of_mapM_eq_some {α β : Type} {f : α → Option β} {xs : List α} {ys : List β}
    (h : xs.mapM f = some ys) {y : β} (hy : y ∈ ys) : ∃ x ∈ xs, f x = some y := by
  induction xs generalizing ys with
  | nil =>
      cases h
      cases hy
  | cons x xs ih =>
      rw [List.mapM_cons] at h
      obtain ⟨z, hz, h⟩ := Option.bind_eq_some_iff.1 h
      obtain ⟨zs, hzs, h⟩ := Option.bind_eq_some_iff.1 h
      cases h
      rcases List.mem_cons.1 hy with rfl | hy
      · exact ⟨x, List.mem_cons_self, hz⟩
      · obtain ⟨w, hw, hwy⟩ := ih hzs hy
        exact ⟨w, List.mem_cons_of_mem x hw, hwy⟩

/-! ### Fields -/

namespace Json.Concrete

theorem names?_spellingMembers (ms : List (String × Json)) :
    names? (spellingMembers ms) = some (ms.map fun m => (m.1, m.2.spelling)) := by
  induction ms with
  | nil => rw [spellingMembers]; rfl
  | cons m ms ih =>
      rw [spellingMembers, names?, resolveText?_codes, ih]
      rfl

theorem only?_of_mem {ms : List (String × Concrete)} (hnodup : (ms.map Prod.fst).Nodup)
    {m : String × Concrete} (hm : m ∈ ms) : only? ms m.1 = some (some m.2) := by
  have hfilter : ms.filter (·.1 == m.1) = [m] := by
    induction ms with
    | nil => cases hm
    | cons l ms ih =>
        obtain ⟨hl, hms⟩ := List.nodup_cons.1 hnodup
        rcases List.mem_cons.1 hm with rfl | hm
        · have hnone : ms.filter (·.1 == m.1) = [] := by
            rw [List.filter_eq_nil_iff]
            intro a ha ham
            exact hl (eq_of_beq ham ▸ List.mem_map_of_mem ha)
          rw [List.filter_cons, beq_self_eq_true, if_pos rfl, hnone]
        · have hne : (l.1 == m.1) = false := by
            rw [beq_eq_false_iff_ne]
            intro heq
            exact hl (heq ▸ List.mem_map_of_mem hm)
          rw [List.filter_cons, hne, if_neg Bool.false_ne_true, ih hms hm]
  rw [only?, hfilter]

/-- A record that is written gives all its fields. -/
theorem fields?_spelling {ms : List (String × Json)} (hnodup : (ms.map Prod.fst).Nodup) :
    (Json.object ms).spelling.fields? (ms.map Prod.fst) = some (ms.map fun m => some m.2.spelling) := by
  have hnames : ((ms.map fun m => (m.1, m.2.spelling)).map Prod.fst).Nodup := by
    rwa [List.map_map]
  rw [spelling, fields?, names?_spellingMembers, Option.bind_eq_bind, Option.bind_some]
  refine mapM_map_eq_some fun m hm => ?_
  exact only?_of_mem hnames (List.mem_map_of_mem hm)

@[simp] theorem text?_spelling (s : String) : (Json.string s).spelling.text? = some s := by
  rw [spelling, text?, resolveText?_codes]

@[simp] theorem int32?_spelling (i : Int32) : (Json.ofInt i.toInt).spelling.int32? = some i := by
  have hrange : -0x80000000 ≤ i.toInt ∧ i.toInt < 0x80000000 := ⟨i.le_toInt, i.toInt_lt⟩
  rw [Json.ofInt, dif_pos (by omega), spelling, int32?, Number.ofLiteral?_literal rfl]
  simp only [hrange, and_self, if_true, Int32.ofInt_toInt]

theorem list?_spelling {α : Type} {f : Concrete → Option α} {g : α → Json} {l : List α}
    (h : ∀ a ∈ l, f (g a).spelling = some a) : (Json.array (l.map g)).spelling.list? f = some l := by
  rw [spelling, list?, spellingItems_eq_map, List.map_map]
  exact (mapM_map_eq_some (g := spelling ∘ g) (k := id) h).trans (congrArg some l.map_id)

theorem exists_of_list?_eq_some {α : Type} {f : Concrete → Option α} {l : List α}
    (h : x.list? f = some l) {a : α} (ha : a ∈ l) : ∃ y, f y = some a := by
  cases x with
  | array xs =>
      obtain ⟨y, -, hy⟩ := exists_of_mapM_eq_some h ha
      exact ⟨y, hy⟩
  | _ => cases h

end Json.Concrete

/-! ### Records that are written -/

@[simp] theorem ValueType.read?_spelling (t : ValueType) :
    read? (Json.string t.name).spelling = some t := by
  rw [Json.spelling, read?, Concrete.resolveText?_codes]
  exact ofName?_name t

theorem Node.readParent?_null : readParent? Json.null.spelling = some none := by
  rw [Json.spelling, readParent?]

theorem Node.readParent?_string {q : Ident} (hq : q.isEmpty = false) :
    readParent? (Json.string q.text).spelling = some (some q) := by
  have htext := Concrete.text?_spelling q.text
  rw [Json.spelling] at htext ⊢
  rw [readParent?, htext, Option.map_some, Ident.nonempty?_eq_some_iff.2 ⟨rfl, hq⟩]
  rintro ⟨⟩

theorem Node.read?_toJson (h : ∀ q, n.parent = some q → q.isEmpty = false) :
    read? n.toJson.spelling = some n := by
  have hfields : n.toJson.spelling.fields? fieldNames = some _ :=
    Concrete.fields?_spelling (show fieldNames.Nodup by decide)
  rw [read?, hfields]
  cases n with
  | mk parent typeTag id index =>
      cases parent with
      | none => simp [readParent?_null]
      | some q => simp [readParent?_string (h q rfl)]

theorem Property.read?_toPointJson (hvalue : p.before = p.after) (hedit : p.isEdit = false)
    (hfloat : p.after.json.floatFree = true) (hnesting : p.after.json.nesting ≤ valueNestingLimit) :
    read? p.toPointJson.spelling = some p := by
  have hfields : p.toPointJson.spelling.fields? fieldNames = some _ :=
    Concrete.fields?_spelling (show fieldNames.Nodup by decide)
  have hresolve := Concrete.resolve?_spelling p.after.json hfloat hnesting
  have hcanonical : Value.ofJson p.after.json = p.after :=
    Value.ext (Json.canonical_eq_self p.after.json p.after.canonical)
  rw [read?, hfields]
  simp [hresolve, hcanonical, point_eq_self hvalue hedit]

theorem Node.floatFree_toJson (n : Node) : n.toJson.floatFree = true := by
  rw [toJson]
  cases n.parent <;> simp [Json.floatFree, Json.floatFreeMembers, Json.floatFree_ofInt]

theorem Property.floatFree_toPointJson (hfloat : p.after.json.floatFree = true) :
    p.toPointJson.floatFree = true := by
  simp [toPointJson, Json.floatFree, Json.floatFreeMembers, hfloat]

/-! ### Records that are read -/

theorem Node.ne_empty_of_readParent? {parent : Option Ident} (h : readParent? x = some parent)
    {q : Ident} (hq : parent = some q) : q.isEmpty = false := by
  subst hq
  rw [readParent?.eq_def] at h
  split at h
  · cases h
  · obtain ⟨text, -, htext⟩ := Option.map_eq_some_iff.1 h
    obtain ⟨rfl, hne⟩ := Ident.nonempty?_eq_some_iff.1 htext
    exact hne

theorem Node.parent_ne_empty_of_read? (h : read? x = some n) {q : Ident} (hq : n.parent = some q) :
    q.isEmpty = false := by
  rw [read?] at h
  obtain ⟨fields, -, h⟩ := Option.bind_eq_some_iff.1 h
  split at h
  · rename_i parent typeTag id index
    cases parent with
    | none =>
        simp only [Option.bind_eq_bind, Option.bind_eq_some_iff, Option.pure_def, Option.some_inj] at h
        obtain ⟨_, rfl, _, -, _, -, _, -, rfl⟩ := h
        cases hq
    | some y =>
        simp only [Option.bind_eq_bind, Option.bind_eq_some_iff, Option.pure_def, Option.some_inj] at h
        obtain ⟨parent, hparent, _, -, _, -, _, -, rfl⟩ := h
        exact ne_empty_of_readParent? hparent hq
  · cases h

/-- A property that is read is the record of a value at a point in time, and the value leaves room for
the three levels above it. -/
theorem Property.of_read? (h : read? x = some p) :
    (p.before = p.after ∧ p.isEdit = false) ∧ p.after.json.nesting ≤ valueNestingLimit := by
  rw [read?] at h
  obtain ⟨fields, -, h⟩ := Option.bind_eq_some_iff.1 h
  split at h
  · rename_i owner name type value
    have hpoint {j : Json} (hj : j.nesting ≤ valueNestingLimit) :
        (Value.ofJson j).json.nesting ≤ valueNestingLimit :=
      Nat.le_trans (Json.nesting_canonical_le j) hj
    cases value with
    | none =>
        simp only [Option.bind_eq_bind, Option.bind_eq_some_iff, Option.pure_def, Option.some_inj] at h
        obtain ⟨_, rfl, _, -, _, -, _, -, rfl⟩ := h
        exact ⟨⟨rfl, rfl⟩, hpoint (Nat.zero_le _)⟩
    | some y =>
        simp only [Option.bind_eq_bind, Option.bind_eq_some_iff, Option.pure_def, Option.some_inj] at h
        obtain ⟨j, hj, _, -, _, -, _, -, rfl⟩ := h
        exact ⟨⟨rfl, rfl⟩, hpoint (Concrete.nesting_le_of_resolve? y hj)⟩
  · cases h

/-! ### Snapshots -/

namespace Snapshot

/-- What the document of a snapshot can tell: parents that are not empty, and properties at a point in
time, with values that leave room for the three levels above them. -/
structure Writable (s : Snapshot) : Prop where
  parent_ne_empty : ∀ n ∈ s.nodes, ∀ q, n.parent = some q → q.isEmpty = false
  point : ∀ p ∈ s.properties, p.before = p.after ∧ p.isEdit = false
  nesting : ∀ p ∈ s.properties, p.after.json.nesting ≤ Property.valueNestingLimit

example : Property.valueNestingLimit = 124 := rfl

/-- No identifier, no owner and no name of a property is the empty text. -/
structure Named (s : Snapshot) : Prop where
  id : ∀ n ∈ s.nodes, n.id.isEmpty = false
  owner : ∀ p ∈ s.properties, p.owner.isEmpty = false
  name : ∀ p ∈ s.properties, p.name.isEmpty = false

theorem propertyError?_eq_none_iff :
    propertyError? p = none ↔ p.owner.isEmpty = false ∧ p.name.isEmpty = false := by
  rw [propertyError?]
  cases p.owner.isEmpty <;> cases p.name.isEmpty <;> simp

theorem validate_eq_ok_iff : s.validate = .ok () ↔ s.Named := by
  have herror : s.validate = .ok () ↔ s.error? = none := by
    rw [validate]
    cases s.error? <;> simp
  have hproperties : s.properties.findSome? propertyError? = none ↔
      ∀ p ∈ s.properties, p.owner.isEmpty = false ∧ p.name.isEmpty = false := by
    simp only [List.findSome?_eq_none_iff, propertyError?_eq_none_iff]
  rw [herror, error?]
  split
  · rename_i hany
    obtain ⟨n, hn, hid⟩ := List.any_eq_true.1 hany
    refine iff_of_false (Option.some_ne_none _) fun h => ?_
    rw [h.id n hn] at hid
    cases hid
  · rename_i hany
    rw [hproperties]
    constructor
    · intro h
      refine ⟨fun n hn => ?_, fun p hp => (h p hp).1, fun p hp => (h p hp).2⟩
      exact Bool.eq_false_iff.2 fun hid => hany (List.any_eq_true.2 ⟨n, hn, hid⟩)
    · intro h p hp
      exact ⟨h.owner p hp, h.name p hp⟩

theorem read_eq_ok_iff {text : String} : read text = .ok s ↔
    (Concrete.parse? text).bind ofConcrete? = some s ∧ s.validate = .ok () := by
  rw [read]
  cases (Concrete.parse? text).bind ofConcrete? with
  | none => exact iff_of_false (fun h => nomatch h) fun h => nomatch h.1
  | some t =>
      cases ht : t.validate with
      | error e =>
          refine iff_of_false ?_ ?_
          · simp only [ht]
            rintro ⟨⟩
          · rintro ⟨⟨⟩, hs⟩
            rw [ht] at hs
            cases hs
      | ok u =>
          simp only [ht]
          constructor
          · rintro ⟨⟩
            exact ⟨rfl, ht⟩
          · rintro ⟨⟨⟩, -⟩
            rfl

/-! ### Writing -/

theorem floatFree_toJson (hfloat : ∀ p ∈ s.properties, p.after.json.floatFree = true) :
    s.toJson.floatFree = true := by
  have hnodes := Json.floatFreeItems_map (l := s.nodes) fun n _ => n.floatFree_toJson
  have hproperties := Json.floatFreeItems_map fun p hp => Property.floatFree_toPointJson (hfloat p hp)
  simp [toJson, Json.floatFree, Json.floatFreeMembers, hnodes, hproperties]

theorem Writable.ofConcrete?_write (h : s.Writable)
    (hfloat : ∀ p ∈ s.properties, p.after.json.floatFree = true) :
    (Concrete.parse? s.write).bind ofConcrete? = some s := by
  have hfields : s.toJson.spelling.fields? fieldNames = some _ :=
    Concrete.fields?_spelling (show fieldNames.Nodup by decide)
  have hnodes := Concrete.list?_spelling fun n hn => Node.read?_toJson (h.parent_ne_empty n hn)
  have hproperties := Concrete.list?_spelling fun p hp => Property.read?_toPointJson (h.point p hp).1
    (h.point p hp).2 (hfloat p hp) (h.nesting p hp)
  rw [write, Concrete.parse?_pretty (floatFree_toJson hfloat), Option.bind_some, ofConcrete?, hfields]
  simp [hnodes, hproperties]

/-! ### Reading -/

theorem writable_of_ofConcrete? (h : ofConcrete? x = some s) : s.Writable := by
  have hrecords : (∀ n ∈ s.nodes, ∃ y, Node.read? y = some n) ∧
      ∀ p ∈ s.properties, ∃ y, Property.read? y = some p := by
    rw [ofConcrete?] at h
    obtain ⟨fields, -, h⟩ := Option.bind_eq_some_iff.1 h
    split at h
    · rename_i nodes properties
      have hnone {α : Type} {f : Concrete → Option α} {l : List α} (hl : some [] = some l) :
          ∀ a ∈ l, ∃ y, f y = some a := by
        cases hl
        intro a ha
        cases ha
      have hsome {α : Type} {f : Concrete → Option α} {l : List α} {y : Concrete}
          (hl : y.list? f = some l) : ∀ a ∈ l, ∃ y, f y = some a :=
        fun a ha => Concrete.exists_of_list?_eq_some hl ha
      cases nodes <;> cases properties <;>
        simp only [Option.bind_eq_bind, Option.bind_eq_some_iff, Option.pure_def] at h <;>
        obtain ⟨_, hnodes, _, hproperties, ⟨⟩⟩ := h
      · exact ⟨hnone hnodes, hnone hproperties⟩
      · exact ⟨hnone hnodes, hsome hproperties⟩
      · exact ⟨hsome hnodes, hnone hproperties⟩
      · exact ⟨hsome hnodes, hsome hproperties⟩
    · cases h
  constructor
  · intro n hn q hq
    obtain ⟨y, hy⟩ := hrecords.1 n hn
    exact Node.parent_ne_empty_of_read? hy hq
  · intro p hp
    obtain ⟨y, hy⟩ := hrecords.2 p hp
    exact (Property.of_read? hy).1
  · intro p hp
    obtain ⟨y, hy⟩ := hrecords.2 p hp
    exact (Property.of_read? hy).2

/-! ### Reading what was written -/

/-- **A document is read as the snapshot that it was written for**, whatever characters its texts have
and whatever places its objects have. -/
theorem read_write (hnamed : s.Named) (hwritable : s.Writable)
    (hfloat : ∀ p ∈ s.properties, p.after.json.floatFree = true) : read s.write = .ok s := by
  have hread : (Concrete.parse? s.write).bind ofConcrete? = some s := hwritable.ofConcrete?_write hfloat
  have hvalid : s.validate = .ok () := validate_eq_ok_iff.2 hnamed
  exact read_eq_ok_iff.2 ⟨hread, hvalid⟩

/-- Quotes, backslashes, control characters, characters of any plane, the lowest and the highest place,
the lowest and the highest integer and nested lists and objects come back. -/
theorem read_write_extremes :
    let s : Snapshot := ⟨
      [⟨none, "", ⟨"\"\\/\n\x00\x1f\x7f"⟩, -2147483648⟩,
        ⟨some ⟨" "⟩, "a.b", ⟨"\u00e9\ud7ff\ue000𝄞"⟩, 2147483647⟩],
      [.point ⟨"x"⟩ "n\t" .pngImage (.ofJson (.object [
          ("\"", .array [.null, .bool true, .object [], .array [.array []]]),
          ("", .array [.ofInt (-0x8000000000000000), .ofInt 0, .ofInt 0xffffffffffffffff])])),
        .point ⟨"x"⟩ "n\t" .null .null]⟩
    read s.write = .ok s := by
  intro s
  have hparents : ∀ n ∈ s.nodes, ∀ q ∈ n.parent, q.isEmpty = false := by decide +kernel
  refine read_write ⟨?_, ?_, ?_⟩ ⟨hparents, ?_, ?_⟩ ?_ <;> decide +kernel

/-- **What is written for a document is a fixed point**, in whatever way the document was spelled.  What
is read is valid: no identifier, no owner and no name of a property is empty.  Its objects have no empty
parents and its properties are at a point in time.  Unless there is a floating-point number in it, what is
written for it is read as the same snapshot, and written as the same text. -/
theorem write_read {text : String} (h : read text = .ok s) :
    s.validate = .ok () ∧ s.Named ∧
    (∀ n ∈ s.nodes, ∀ q, n.parent = some q → q.isEmpty = false) ∧
    (∀ p ∈ s.properties, p.before = p.after ∧ p.isEdit = false) ∧
    ((∀ p ∈ s.properties, p.after.json.floatFree = true) →
      read s.write = .ok s ∧ (read s.write).map write = .ok s.write) := by
  obtain ⟨hread, hvalid⟩ := read_eq_ok_iff.1 h
  obtain ⟨x, -, hx⟩ := Option.bind_eq_some_iff.1 hread
  have hwritable := writable_of_ofConcrete? hx
  refine ⟨hvalid, validate_eq_ok_iff.1 hvalid, hwritable.parent_ne_empty, hwritable.point,
    fun hfloat => ?_⟩
  have hagain : read s.write = .ok s := read_eq_ok_iff.2 ⟨hwritable.ofConcrete?_write hfloat, hvalid⟩
  rw [hagain]
  exact ⟨rfl, rfl⟩

/-- Records as lists and as objects with their members in any order, escapes, empty and null parents, a
type spelled as an object, a missing value and an unknown member with a number too large for any
reader. -/
theorem write_read_spellings :
    let text := "\x7b\"properties\":[[\"a\",\"\\u006e\",\x7b\"string\":null\x7d]],\r\n " ++
      "\"objects\":[\x7b\"extra\":[1e999],\"sibling_index\":-1,\"id\":\"a\",\"type_tag\":\"T\"," ++
      "\"parent_id\":\"\"\x7d,[null,\"T\",\"\\ud834\\udd1e\",2147483647]]\x7d"
    let s : Snapshot := ⟨[⟨none, "T", ⟨"a"⟩, -1⟩, ⟨none, "T", ⟨"𝄞"⟩, 2147483647⟩],
      [.point ⟨"a"⟩ "n" .string .null]⟩
    read text = .ok s ∧ s.validate = .ok () ∧ s.write ≠ text ∧ read s.write = .ok s := by
  intro text s
  have hnamed : s.Named := by constructor <;> decide +kernel
  have hread : read text = .ok s := read_eq_ok_iff.2 ⟨by decide +kernel, validate_eq_ok_iff.2 hnamed⟩
  obtain ⟨hvalid, -, -, -, hagain⟩ := write_read hread
  exact ⟨hread, hvalid, by decide +kernel, (hagain (by decide +kernel)).1⟩

end Snapshot

end GraphDelta
