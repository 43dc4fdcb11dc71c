/-
**What the lines of an outline say.**

The line of an object shows a type and a name.  They are looked up each in its own way: the name in the
snapshot in which the object has its place, and the type wherever there is a record, in the old snapshot
first.  For what is removed or edited the two come from one record, the old one.  What is added is shown by
its new name; but if it moved, then there is an old record too, and it is the type in that one which is
shown.  The line is that of the new object exactly if the types agree.

Main definitions:

* `Outline.Entry.IsLabelOf` — a line shows what a catalog says of its object.

Main results:

* `Outline.Sketch.mem_of_getElem?_marks` — a sketch marks nothing as changed of its own accord;
* `Outline.changes_of_mem_outline`, `Outline.isKnown_of_mem_outline` — what stands in an outline;
* `Outline.labels_of_mem_outline` — what the line of an object shows;
* `Comparison.outline_labels` — **which catalog a line is taken from**.
-/
import GraphDelta.Proofs.Shape
import GraphDelta.Proofs.Tracing

set_option autoImplicit false

namespace GraphDelta

namespace Outline

variable {comp : Comparison} {root y : Ident} {s t : Sketch} {st : Status}
  {shows : String → String → Bool} {entries : List Entry} {a : Entry}

/-! ### What a sketch marks -/

theorem Sketch.FillsUp.eq_same_or (h : FillsUp comp root y s t) {x : Ident}
    (hx : t.marks[x]? = some st) : st = .same ∨ s.marks[x]? = some st := by
  have hinsert {s : Sketch} {a : Ident} (hx : (s.marks.insert a .same)[x]? = some st) :
      st = .same ∨ s.marks[x]? = some st := by
    rw [Std.ExtTreeMap.getElem?_insert] at hx
    split at hx
    · cases hx
      exact .inl rfl
    · exact .inr hx
  induction h with
  | stop => exact .inr hx
  | unknown => exact .inr hx
  | top => exact hinsert hx
  | step _ _ _ _ ih => exact (ih hx).elim .inl hinsert

theorem Sketch.mem_of_getElem?_marks (marks : List (Ident × Status))
    (h : (ofMarks comp root marks).marks[y]? = some st) : st = .same ∨ (y, st) ∈ marks := by
  have hlinked : ∀ y st, (marks.foldl (link comp root) ⟨∅, ∅⟩).marks[y]? = some st →
      (y, st) ∈ marks := by
    refine List.foldlRecOn (motive := fun s : Sketch => ∀ y st, s.marks[y]? = some st →
      (y, st) ∈ marks) marks _ ?_ ?_
    · intro y st hst
      rw [Std.ExtTreeMap.getElem?_empty] at hst
      cases hst
    · rintro s hs ⟨x, st'⟩ hx y st hst
      rw [marks_link, Std.ExtTreeMap.getElem?_insert] at hst
      split at hst
      · rename_i hxy
        cases Std.LawfulEqOrd.eq_of_compare hxy
        cases hst
        exact hx
      · exact hs y st hst
  have hfilled : ∀ y st, (ofMarks comp root marks).marks[y]? = some st →
      st = .same ∨ (y, st) ∈ marks := by
    rw [ofMarks, fill_eq]
    refine List.foldlRecOn (motive := fun s : Sketch => ∀ y st, s.marks[y]? = some st →
      st = .same ∨ (y, st) ∈ marks) _ _ ?_ ?_
    · intro y st hst
      rw [Std.ExtTreeMap.getElem?_erase] at hst
      split at hst
      · cases hst
      · exact .inr (hlinked y st hst)
    · intro s hs x _ y st hst
      rcases fillFrom_cases comp root s x with ⟨-, heq⟩ | ⟨p, -, hup⟩
      · exact hs y st (heq ▸ hst)
      · exact (hup.eq_same_or hst).elim .inl (hs y st)
  exact hfilled y st h

/-! ### What stands in an outline -/

theorem changes_of_mem_outline (h : comp.outline root shows = .ok entries) (ha : a ∈ entries)
    (hne : a.status ≠ .same) : Changes comp.delta a.id a.status := by
  obtain ⟨d, hd, -, rfl⟩ := Comparison.outline_eq_ok_iff.1 h
  obtain ⟨o, n, rfl⟩ := Comparison.exists_eq_done_of_delta? hd
  obtain ⟨row, -, rfl⟩ := List.mem_map.1 ha
  change Changes d row.1 ((Sketch.ofMarks (.done o n d) root (marks d)).marks[row.1]?.getD .same)
  have hmark : (Sketch.ofMarks (.done o n d) root (marks d)).marks[row.1]?.getD .same ≠ .same := hne
  cases hst : (Sketch.ofMarks (.done o n d) root (marks d)).marks[row.1]? with
  | none =>
      rw [hst] at hmark
      exact absurd rfl hmark
  | some st =>
      rw [hst] at hmark
      exact mem_marks.1 ((Sketch.mem_of_getElem?_marks _ hst).resolve_left hmark)

theorem isKnown_of_mem_outline (h : comp.outline root shows = .ok entries) (ha : a ∈ entries)
    (hne : a.status ≠ .same) : comp.IsKnown a.id := by
  obtain ⟨d, hd, hknown, -⟩ := Comparison.outline_eq_ok_iff.1 h
  have hchanges := changes_of_mem_outline h ha hne
  obtain ⟨o, n, rfl⟩ := Comparison.exists_eq_done_of_delta? hd
  exact hknown a.id a.status hchanges

theorem labels_of_mem_outline (h : comp.outline root shows = .ok entries) (ha : a ∈ entries) :
    a.typeName = (comp.node? a.id).elim "" Node.simpleType ∧
      a.title = title? comp a.id a.status ∧ a.details = details comp shows a.id a.status := by
  obtain ⟨d, -, -, rfl⟩ := Comparison.outline_eq_ok_iff.1 h
  obtain ⟨row, -, rfl⟩ := List.mem_map.1 ha
  exact ⟨rfl, rfl, rfl⟩

/-- The line shows the type and the name that the catalog has of its object. -/
def Entry.IsLabelOf (c : Catalog) (a : Entry) : Prop :=
  ∃ n, c.nodes[a.id]? = some n ∧ a.typeName = n.simpleType ∧ a.title = c.title? a.id

end Outline

namespace Comparison

/-! ### Labels -/

section

variable {old new : Snapshot} {c : Comparison} {root : Ident} {shows : String → String → Bool}
  {entries : List Outline.Entry} {a : Outline.Entry} {n : Node}
  (hc : fresh.compare old new = (.ok (), c)) (hentries : c.outline root shows = .ok entries)
  (ha : a ∈ entries)

include hc hentries ha

/-- What is removed or edited is shown as it was. -/
theorem isLabelOf_old (hst : a.status = .removed ∨ a.status = .edited) : a.IsLabelOf c.old := by
  have hne : a.status ≠ .same ∧ a.status ≠ .added := by
    rcases hst with hst | hst <;> rw [hst] <;> decide
  obtain ⟨n, hn⟩ := NodeMap.mem_iff_exists.1 (mem_old_of_known hc
    (Outline.changes_of_mem_outline hentries ha hne.1) hne.2
    fun _ => Outline.isKnown_of_mem_outline hentries ha hne.1)
  obtain ⟨htype, htitle, -⟩ := Outline.labels_of_mem_outline hentries ha
  refine ⟨n, hn, ?_, ?_⟩
  · rw [htype, node?, hn]
    rfl
  · rcases hst with hst | hst <;> rw [htitle, hst] <;> rfl

/-- What is added is shown with its new name, and with its old type if it has one. -/
theorem label_of_added (hst : a.status = .added) : ∃ n, c.new.nodes[a.id]? = some n ∧
    a.title = c.new.title? a.id ∧ a.typeName = (c.old.nodes[a.id]?.getD n).simpleType := by
  have hadds := Outline.changes_of_mem_outline hentries ha (by rw [hst]; decide)
  rw [hst] at hadds
  obtain ⟨n, hn⟩ := NodeMap.mem_iff_exists.1 (mem_new_of_adds hc hadds)
  obtain ⟨htype, htitle, -⟩ := Outline.labels_of_mem_outline hentries ha
  refine ⟨n, hn, ?_, ?_⟩
  · rw [htitle, hst]
    rfl
  · rw [htype, node?, hn]
    cases c.old.nodes[a.id]? <;> rfl

/-- It is shown as what it is in the new snapshot if its type is still the same, or new. -/
theorem isLabelOf_new_iff (hst : a.status = .added) (hn : c.new.nodes[a.id]? = some n) :
    a.IsLabelOf c.new ↔ ∀ o, c.old.nodes[a.id]? = some o → o.simpleType = n.simpleType := by
  obtain ⟨n', hn', htitle, htype⟩ := label_of_added hc hentries ha hst
  cases hn.symm.trans hn'
  constructor
  · rintro ⟨n', hn', heq, -⟩ o ho
    cases hn.symm.trans hn'
    rw [← heq, htype, ho]
    rfl
  · intro hsame
    refine ⟨n, hn, htype.trans ?_, htitle⟩
    cases ho : c.old.nodes[a.id]? with
    | none => rfl
    | some o => exact hsame o ho

end

/-- **Which catalog a line is taken from.**  In an outline of a comparison, what is removed or edited is
shown with its old type and its old name.  What is added is shown with its new name, and with its old type
if it has one: it has the label of the new object exactly if its type did not change. -/
theorem outline_labels (old new : Snapshot) (c : Comparison) (h : fresh.compare old new = (.ok (), c))
    (root : Ident) (shows : String → String → Bool) (entries : List Outline.Entry)
    (hentries : c.outline root shows = .ok entries) : ∀ a ∈ entries,
    (a.status = .removed ∨ a.status = .edited → a.IsLabelOf (.ofSnapshot old)) ∧
    (a.status = .added → ∃ n, new.objects[a.id]? = some n ∧
      a.title = (Catalog.ofSnapshot new).title? a.id ∧
      a.typeName = (old.objects[a.id]?.getD n).simpleType ∧
      (a.IsLabelOf (.ofSnapshot new) ↔
        ∀ o, old.objects[a.id]? = some o → o.simpleType = n.simpleType)) := by
  intro a ha
  have hold := isLabelOf_old h hentries ha
  have hadded := label_of_added h hentries ha
  have hnew {n : Node} := isLabelOf_new_iff (n := n) h hentries ha
  obtain ⟨d, -, rfl⟩ := compare_eq_ok_iff.1 h
  refine ⟨hold, fun hst => ?_⟩
  obtain ⟨n, hn, htitle, htype⟩ := hadded hst
  exact ⟨n, hn, htitle, htype, hnew hst hn⟩

/-- Two objects move, and one of them gets another type; one is removed, one is edited, and one is fresh.
All that are in both snapshots get new names.  The name of the removed one is no text, and that of the
fresh one is null. -/
theorem outline_labels_of_changed_types :
    let name (id text : String) : Property := .point ⟨id⟩ "name" .string (.ofText text)
    let old : Snapshot := ⟨[⟨some ⟨"w"⟩, "x.T", ⟨"a"⟩, 0⟩, ⟨some ⟨"w"⟩, "x.T", ⟨"b"⟩, 1⟩,
        ⟨some ⟨"w"⟩, "x.T", ⟨"d"⟩, 2⟩, ⟨some ⟨"w"⟩, "x.T", ⟨"e"⟩, 3⟩],
      [name "a" "A", name "b" "B", .point ⟨"d"⟩ "name" .boolean (.ofJson (.bool true)), name "e" "E"]⟩
    let new : Snapshot := ⟨[⟨some ⟨"w"⟩, "x.U", ⟨"a"⟩, 0⟩, ⟨some ⟨"w"⟩, "x.T", ⟨"b"⟩, 2⟩,
        ⟨some ⟨"w"⟩, "x.T", ⟨"e"⟩, 3⟩, ⟨some ⟨"b"⟩, "x.V", ⟨"f"⟩, 0⟩],
      [name "a" "A2", name "b" "B2", name "e" "E2", .point ⟨"f"⟩ "name" .string .null]⟩
    ∃ c entries, fresh.compare old new = (.ok (), c) ∧
      c.outline ⟨"w"⟩ (fun _ _ => false) = .ok entries ∧
      entries = [⟨⟨"a"⟩, .added, "T", some "A2", 0, []⟩, ⟨⟨"b"⟩, .added, "T", some "B2", 0, []⟩,
        ⟨⟨"f"⟩, .added, "V", none, 1, []⟩, ⟨⟨"d"⟩, .removed, "T", some "true", 0, []⟩,
        ⟨⟨"e"⟩, .edited, "T", some "E", 0, []⟩] ∧
      ∀ a ∈ entries, (a.status = .removed ∨ a.status = .edited → a.IsLabelOf (.ofSnapshot old)) ∧
        (a.status = .added → (a.IsLabelOf (.ofSnapshot new) ↔ a.id ≠ ⟨"a"⟩)) := by
  intro name old new
  let entries : List Outline.Entry := [⟨⟨"a"⟩, .added, "T", some "A2", 0, []⟩,
    ⟨⟨"b"⟩, .added, "T", some "B2", 0, []⟩, ⟨⟨"f"⟩, .added, "V", none, 1, []⟩,
    ⟨⟨"d"⟩, .removed, "T", some "true", 0, []⟩, ⟨⟨"e"⟩, .edited, "T", some "E", 0, []⟩]
  have hc : fresh.compare old new = (.ok (), (fresh.compare old new).2) := Prod.ext (by rfl) rfl
  have hentries : (fresh.compare old new).2.outline ⟨"w"⟩ (fun _ _ => false) = .ok entries := by
    decide +kernel
  have htypes : ∀ a ∈ entries, ∀ n, new.objects[a.id]? = some n →
      ((∀ o, old.objects[a.id]? = some o → o.simpleType = n.simpleType) ↔ a.id ≠ ⟨"a"⟩) := by
    decide +kernel
  refine ⟨_, entries, hc, hentries, rfl, fun a ha => ?_⟩
  obtain ⟨hkept, hadded⟩ := outline_labels old new _ hc _ _ entries hentries a ha
  refine ⟨hkept, fun hst => ?_⟩
  obtain ⟨n, hn, -, -, hlabel⟩ := hadded hst
  exact hlabel.trans (htypes a ha n hn)

/-- What is added is not always shown as what the new snapshot says of it: an object that gets another
type is shown with the old one. -/
theorem moved_object_keeps_old_type : ¬ ∀ (old new : Snapshot) (c : Comparison),
    fresh.compare old new = (.ok (), c) → ∀ root shows entries, c.outline root shows = .ok entries →
      ∀ a ∈ entries, a.status = .added → a.IsLabelOf (.ofSnapshot new) := by
  intro h
  let old : Snapshot := ⟨[⟨some ⟨"w"⟩, "T", ⟨"a"⟩, 0⟩], []⟩
  let new : Snapshot := ⟨[⟨some ⟨"w"⟩, "U", ⟨"a"⟩, 0⟩], []⟩
  have hc : fresh.compare old new = (.ok (), (fresh.compare old new).2) := Prod.ext (by rfl) rfl
  have hentries : (fresh.compare old new).2.outline ⟨"w"⟩ (fun _ _ => true) =
      .ok [⟨⟨"a"⟩, .added, "T", none, 0, []⟩] := by decide +kernel
  obtain ⟨n, hn, htype, -⟩ := h old new _ hc _ _ _ hentries _ (List.mem_singleton_self _) rfl
  have hnew : ∀ n, (Catalog.ofSnapshot new).nodes[(⟨"a"⟩ : Ident)]? = some n → "T" ≠ n.simpleType := by
    decide +kernel
  exact hnew n hn htype

end Comparison

end GraphDelta
