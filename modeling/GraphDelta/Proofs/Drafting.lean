/-
**Outlines in one pass.**

An outline can be drafted while the changes come by.  Every object that is marked gets a label at once,
with the type and the name that are shown of it, and the details of an edited one are noted one by one.
The first edit of an object that is neither removed nor added marks it.  So the filter is asked about
some details before other objects are marked, and before anything is filled in.

It makes no difference to them.  The draft goes along with a sketch that is made in one pass too,
without labels and without a filter, step by step, and the two fail together.  What has been noted of an
object follows from its mark and from the edits that have come by.  In the end the draft has become the
outline, and another filter gives the same lines with other details.

Main definitions:

* `Outline.Draft` — an outline in the making, and `Comparison.draft` — **the pass**;
* `Outline.labelOf` — what has been noted of an object;
* `Outline.Draft.Follows` — a draft that goes along with a sketch;
* `Outline.Entry.SameLine` — two lines that agree but for their details.

Main results:

* `Outline.Draft.endsAlike_edit` — **the filter decides about one detail, and nothing else**;
* `Comparison.draft_eq_outline` — the draft becomes the outline;
* `Comparison.outline_filter` — **the filter selects details only**.
-/
import GraphDelta.Proofs.Labels
import GraphDelta.Proofs.Marking

set_option autoImplicit false

namespace GraphDelta

namespace Outline

/-! ### Drafts -/

/-- What is shown of an object, besides how it changes. -/
structure Label where
  typeName : String
  title : Option String
  details : List Detail

/-- An outline in the making: marks and links, and the labels of what is marked. -/
structure Draft where
  sketch : Sketch
  labels : Std.ExtTreeMap Ident Label

namespace Draft

def empty : Draft := ⟨⟨∅, ∅⟩, ∅⟩

/-- Marks an object, links what is above it, and gives it a label without details. -/
def mark (c : Comparison) (root : Ident) (d : Draft) (m : Ident × Status) : Except Fault Draft := do
  let typeName ← c.typeName m.1
  return ⟨d.sketch.link c root m, d.labels.insert m.1 ⟨typeName, title? c m.1 m.2, []⟩⟩

/-- A removal comes by.  A moved object is shown where it is added. -/
def remove (c : Comparison) (root : Ident) (d : Draft) (n : Node) : Except Fault Draft :=
  if c.delta.adds n.id then .ok d else d.mark c root (n.id, .removed)

def add (c : Comparison) (root : Ident) (d : Draft) (n : Node) : Except Fault Draft :=
  d.mark c root (n.id, .added)

/-- The detail of an edit is noted, if the object is an edited one and the filter lets it pass. -/
def note (c : Comparison) (shows : String → String → Bool) (d : Draft) (e : Property) :
    Except Fault Draft :=
  if d.sketch.marks[e.owner]? = some .edited then
    match c.node? e.owner with
    | none => .error (.unresolved e.owner)
    | some n =>
      if shows n.typeTag e.name then
        .ok { d with labels := d.labels.modify e.owner fun l =>
          { l with details := l.details ++ [.ofEdit e] } }
      else .ok d
  else .ok d

/-- An edit comes by.  It marks its object, unless that is marked already. -/
def edit (c : Comparison) (root : Ident) (shows : String → String → Bool) (d : Draft) (e : Property) :
    Except Fault Draft := do
  let d ← if e.owner ∈ d.sketch.marks then pure d else d.mark c root (e.owner, .edited)
  d.note c shows e

/-- The changes come by, one after the other. -/
def pass (c : Comparison) (root : Ident) (shows : String → String → Bool) : Except Fault Draft := do
  let d ← c.delta.removals.foldlM (remove c root) empty
  let d ← c.delta.additions.foldlM (add c root) d
  c.delta.edits.foldlM (edit c root shows) d

/-- Marks `id` and what is above it as unchanged, as a sketch does, and gives labels to them. -/
def fillUp (c : Comparison) (root : Ident) : Nat → Ident → Draft → Draft
  | 0, _, d => d
  | fuel + 1, id, d =>
    if id = root ∨ id ∈ d.sketch.marks then d
    else
      match c.node? id with
      | none => d
      | some n =>
        let marks := d.sketch.marks.insert id .same
        let labels := d.labels.insert id ⟨n.simpleType, title? c id .same, []⟩
        match n.parent with
        | none => ⟨⟨marks, d.sketch.links⟩, labels⟩
        | some p => fillUp c root fuel p ⟨⟨marks, d.sketch.links.insert id p⟩, labels⟩

/-- Fills in what is between an object and the root, if the object is linked. -/
def fillFrom (c : Comparison) (root : Ident) (d : Draft) (id : Ident) : Draft :=
  match d.sketch.links[id]? with
  | none => d
  | some p => fillUp c root (c.old.nodes.size + c.new.nodes.size + 1) p d

/-- Leaves out the root, and fills in the objects between linked ones and the root. -/
def fill (c : Comparison) (root : Ident) (d : Draft) : Draft :=
  d.sketch.links.keys.foldl (fillFrom c root)
    ⟨⟨d.sketch.marks.erase root, d.sketch.links⟩, d.labels.erase root⟩

def line? (d : Draft) (row : Ident × Nat) : Option Entry := do
  let status ← d.sketch.marks[row.1]?
  let label ← d.labels[row.1]?
  return ⟨row.1, status, label.typeName, label.title, row.2, label.details⟩

def entries (c : Comparison) (root : Ident) (d : Draft) : List Entry :=
  (d.sketch.rows c root).filterMap d.line?

end Draft

/-! ### What has been noted -/

section

variable {c : Comparison} {shows : String → String → Bool} {seen : List Property}
  {e : Property} {x : Ident} {st : Status} {n : Node}

/-- What has been noted of an object that is marked in some way, once some edits have come by. -/
def labelOf (c : Comparison) (shows : String → String → Bool) (seen : List Property) (id : Ident)
    (status : Status) : Label where
  typeName := (c.node? id).elim "" Node.simpleType
  title := title? c id status
  details :=
    match status, c.node? id with
    | .edited, some n =>
      (seen.filter fun p => p.owner == id && shows n.typeTag p.name).map Detail.ofEdit
    | _, _ => []

theorem labelOf_nil (hn : c.node? x = some n) :
    labelOf c shows [] x st = ⟨n.simpleType, title? c x st, []⟩ := by
  simp only [labelOf, hn]
  cases st <;> rfl

theorem labelOf_of_ne_edited (hst : st ≠ .edited) :
    labelOf c shows seen x st = labelOf c shows [] x st := by
  cases st with
  | edited => exact absurd rfl hst
  | same | removed | added => rfl

theorem labelOf_of_forall_ne (h : ∀ e ∈ seen, e.owner ≠ x) :
    labelOf c shows seen x st = labelOf c shows [] x st := by
  have hnone (n : Node) : seen.filter (fun p => p.owner == x && shows n.typeTag p.name) = [] := by
    refine List.filter_eq_nil_iff.2 fun e he htrue => h e he ?_
    exact beq_iff_eq.1 (Bool.and_eq_true_iff.1 htrue).1
  simp only [labelOf, hnone, List.filter_nil]

theorem labelOf_append_of_ne (he : e.owner ≠ x) :
    labelOf c shows (seen ++ [e]) x st = labelOf c shows seen x st := by
  have hskip (n : Node) : (seen ++ [e]).filter (fun p => p.owner == x && shows n.typeTag p.name) =
      seen.filter fun p => p.owner == x && shows n.typeTag p.name := by
    rw [List.filter_append, List.filter_cons_of_neg (by simp [he]), List.filter_nil, List.append_nil]
  simp only [labelOf, hskip]

/-- An edit of an edited object adds its detail, if the filter lets it pass. -/
theorem labelOf_append_self (hn : c.node? e.owner = some n) :
    labelOf c shows (seen ++ [e]) e.owner .edited =
      { labelOf c shows seen e.owner .edited with
        details := (labelOf c shows seen e.owner .edited).details ++
          if shows n.typeTag e.name then [.ofEdit e] else [] } := by
  simp only [labelOf, hn, List.filter_append, List.map_append]
  cases hshow : shows n.typeTag e.name <;> simp [hshow]

end

namespace Draft

variable {c : Comparison} {root x : Ident} {shows : String → String → Bool} {seen : List Property}
  {d : Draft} {s : Sketch} {st : Status} {e : Property}

/-- A draft goes along with a sketch.  It has labels for what is marked, and they follow from the marks
and from the edits that have come by. -/
structure Follows (c : Comparison) (shows : String → String → Bool) (seen : List Property) (d : Draft)
    (s : Sketch) : Prop where
  sketch_eq : d.sketch = s
  getElem?_labels : ∀ x, d.labels[x]? = s.marks[x]?.map (labelOf c shows seen x)

/-- While changes come by, edits have marked their objects, and what is marked as edited is known. -/
structure Passing (c : Comparison) (shows : String → String → Bool) (seen : List Property) (d : Draft)
    (s : Sketch) : Prop extends Follows c shows seen d s where
  mem_marks : ∀ e ∈ seen, e.owner ∈ s.marks
  node?_ne_none : ∀ x, s.marks[x]? = some .edited → c.node? x ≠ none

/-- A new label is the right one for a new mark, unless details have been noted before. -/
theorem Follows.insert {t : Sketch} (h : Follows c shows seen d s)
    (ht : t.marks = s.marks.insert x st) (hx : st ≠ .edited ∨ ∀ e ∈ seen, e.owner ≠ x) :
    Follows c shows seen ⟨t, d.labels.insert x (labelOf c shows [] x st)⟩ t where
  sketch_eq := rfl
  getElem?_labels y := by
    rw [ht, Std.ExtTreeMap.getElem?_insert, Std.ExtTreeMap.getElem?_insert]
    split
    · rename_i hxy
      cases Std.LawfulEqOrd.eq_of_compare hxy
      exact congrArg some (hx.elim labelOf_of_ne_edited labelOf_of_forall_ne).symm
    · exact h.getElem?_labels y

theorem Follows.append {labels : Std.ExtTreeMap Ident Label} (h : Follows c shows seen d s)
    (hother : ∀ y, e.owner ≠ y → labels[y]? = d.labels[y]?)
    (hself : labels[e.owner]? = s.marks[e.owner]?.map (labelOf c shows (seen ++ [e]) e.owner)) :
    Follows c shows (seen ++ [e]) ⟨d.sketch, labels⟩ s where
  sketch_eq := h.sketch_eq
  getElem?_labels y := by
    by_cases hy : e.owner = y
    · exact hy ▸ hself
    · rw [hother y hy, h.getElem?_labels]
      exact Option.map_congr fun st _ => (labelOf_append_of_ne hy).symm

/-- Marking an object goes along with marking it without a label. -/
theorem endsAlike_mark (h : Passing c shows seen d s) (root : Ident)
    (hx : st ≠ .edited ∨ ∀ e ∈ seen, e.owner ≠ x) :
    EndsAlike (fun d s => Passing c shows seen d s ∧ x ∈ s.marks) (d.mark c root (x, st))
      (s.mark c root (x, st)) := by
  obtain rfl := h.sketch_eq
  rw [mark, Sketch.mark, Comparison.typeName]
  have hmarks := Sketch.marks_link c root d.sketch x st
  have hinsert := h.toFollows.insert hmarks hx
  cases hn : c.node? x with
  | none => exact .error _
  | some n =>
      rw [labelOf_nil hn] at hinsert
      refine .ok ⟨⟨hinsert, fun e he => ?_, fun y hy => ?_⟩, ?_⟩
      · rw [hmarks, mem_insert_iff]
        exact .inr (h.mem_marks e he)
      · rw [hmarks, Std.ExtTreeMap.getElem?_insert] at hy
        split at hy
        · rename_i hxy
          cases Std.LawfulEqOrd.eq_of_compare hxy
          rw [hn]
          exact Option.some_ne_none n
        · exact h.node?_ne_none y hy
      · rw [hmarks, mem_insert_iff]
        exact .inl rfl

theorem exists_note_eq_ok (h : Passing c shows seen d s) (hmem : e.owner ∈ s.marks) :
    ∃ d', d.note c shows e = .ok d' ∧ Passing c shows (seen ++ [e]) d' s := by
  obtain rfl := h.sketch_eq
  have hlabel := h.getElem?_labels e.owner
  have hpass {labels : Std.ExtTreeMap Ident Label}
      (hother : ∀ y, e.owner ≠ y → labels[y]? = d.labels[y]?)
      (hself : labels[e.owner]? =
        d.sketch.marks[e.owner]?.map (labelOf c shows (seen ++ [e]) e.owner)) :
      Passing c shows (seen ++ [e]) ⟨d.sketch, labels⟩ d.sketch :=
    ⟨h.toFollows.append hother hself, List.forall_mem_append.2
      ⟨h.mem_marks, List.forall_mem_singleton.2 hmem⟩, h.node?_ne_none⟩
  rw [note]
  split
  · rename_i hst
    cases hn : c.node? e.owner with
    | none => exact absurd hn (h.node?_ne_none _ hst)
    | some n =>
        have happend : labelOf c shows (seen ++ [e]) e.owner .edited = _ := labelOf_append_self hn
        rw [hst, Option.map_some] at hlabel
        dsimp only
        split
        · rename_i hshow
          refine ⟨_, rfl, hpass (fun y hy => ?_) ?_⟩
          · rw [Std.ExtTreeMap.getElem?_modify, if_neg]
            exact fun heq => hy (Std.LawfulEqOrd.eq_of_compare heq)
          · rw [Std.ExtTreeMap.getElem?_modify_self, hlabel, hst, Option.map_some, Option.map_some,
              happend, if_pos hshow]
        · rename_i hshow
          refine ⟨_, rfl, hpass (fun y _ => rfl) ?_⟩
          rw [hlabel, hst, Option.map_some, happend, if_neg hshow, List.append_nil]
  · rename_i hst
    refine ⟨_, rfl, hpass (fun y _ => rfl) (hlabel.trans (Option.map_congr fun st hst' => ?_))⟩
    have hne : st ≠ .edited := fun heq => hst (heq ▸ hst')
    exact (labelOf_of_ne_edited hne).trans (labelOf_of_ne_edited hne).symm

/-- **The filter decides about one detail, and nothing else.** -/
theorem endsAlike_edit (h : Passing c shows seen d s) (root : Ident) :
    EndsAlike (Passing c shows (seen ++ [e])) (d.edit c root shows e) (s.edit c root e) := by
  obtain rfl := h.sketch_eq
  have hnote {d : Draft} {s : Sketch} (h : Passing c shows seen d s) (hmem : e.owner ∈ s.marks) :
      EndsAlike (Passing c shows (seen ++ [e])) (d.note c shows e) (.ok s) := by
    obtain ⟨d', hd', hpass⟩ := exists_note_eq_ok h hmem
    rw [hd']
    exact .ok hpass
  rw [edit, Sketch.edit]
  by_cases hmem : e.owner ∈ d.sketch.marks
  · rw [if_pos hmem, if_pos hmem]
    exact hnote h hmem
  · rw [if_neg hmem, if_neg hmem]
    have hno : ∀ e' ∈ seen, e'.owner ≠ e.owner := fun e' he' heq => hmem (heq ▸ h.mem_marks e' he')
    have hmark : EndsAlike _ (d.mark c root (e.owner, .edited)) _ := endsAlike_mark h root (.inr hno)
    have hbind := hmark.bind (f := fun d => d.note c shows e) (g := pure)
      fun d s hds => hnote hds.1 hds.2
    rwa [bind_pure] at hbind

/-! ### The whole pass -/

/-- **The pass goes along with the one without labels.** -/
theorem endsAlike_pass (c : Comparison) (root : Ident) (shows : String → String → Bool) :
    EndsAlike (Passing c shows c.delta.edits) (pass c root shows) (Sketch.pass c root) := by
  have hempty : Passing c shows [] empty ⟨∅, ∅⟩ :=
    { sketch_eq := rfl
      getElem?_labels := fun x => by simp [empty]
      mem_marks := List.forall_mem_nil _
      node?_ne_none := fun x hx => by simp at hx }
  -- removals and additions come by before any edit does
  have hmark (d : Draft) (s : Sketch) (n : Node) {st : Status} (hst : st ≠ .edited)
      (h : Passing c shows [] d s) : EndsAlike (Passing c shows []) (d.mark c root (n.id, st))
        (s.mark c root (n.id, st)) :=
    (endsAlike_mark h root (.inl hst)).imp fun _ _ => And.left
  have hremove (_ : List Node) (n : Node) (d : Draft) (s : Sketch) (h : Passing c shows [] d s) :
      EndsAlike (Passing c shows []) (d.remove c root n) (s.remove c root n) := by
    rw [remove, Sketch.remove]
    split
    · exact .ok h
    · exact hmark d s n (by decide) h
  have hadd (_ : List Node) (n : Node) (d : Draft) (s : Sketch) (h : Passing c shows [] d s) :
      EndsAlike (Passing c shows []) (d.add c root n) (s.add c root n) :=
    hmark d s n (by decide) h
  refine (EndsAlike.foldlM hremove c.delta.removals [] hempty).bind fun d s hds => ?_
  refine (EndsAlike.foldlM hadd c.delta.additions [] hds).bind fun d s hds => ?_
  exact EndsAlike.foldlM (R := Passing c shows) (fun _ _ _ _ h => endsAlike_edit h root)
    c.delta.edits [] hds

/-! ### Filling in -/

variable {fuel : Nat} {id : Ident}

theorem Follows.fillUp (h : Follows c shows seen d s) :
    Follows c shows seen (d.fillUp c root fuel id) (s.fillUp c root fuel id) := by
  induction fuel generalizing id d s with
  | zero => exact h
  | succ fuel ih =>
      obtain rfl := h.sketch_eq
      rw [Draft.fillUp, Sketch.fillUp]
      split
      · exact h
      · cases hn : c.node? id with
        | none => exact h
        | some n =>
            have hmark (links : Std.ExtTreeMap Ident Ident) :
                Follows c shows seen ⟨⟨d.sketch.marks.insert id .same, links⟩,
                    d.labels.insert id ⟨n.simpleType, title? c id .same, []⟩⟩
                  ⟨d.sketch.marks.insert id .same, links⟩ := by
              have hinsert := h.insert (t := ⟨d.sketch.marks.insert id .same, links⟩) rfl
                (.inl (by decide))
              rwa [labelOf_nil hn] at hinsert
            dsimp only
            cases n.parent with
            | none => exact hmark d.sketch.links
            | some p => exact ih (hmark (d.sketch.links.insert id p))

theorem Follows.fill (h : Follows c shows seen d s) (root : Ident) :
    Follows c shows seen (d.fill c root) (Sketch.fill c root ⟨s.marks.erase root, s.links⟩) := by
  obtain rfl := h.sketch_eq
  have herase : Follows c shows seen
      ⟨⟨d.sketch.marks.erase root, d.sketch.links⟩, d.labels.erase root⟩
      ⟨d.sketch.marks.erase root, d.sketch.links⟩ := by
    refine ⟨rfl, fun x => ?_⟩
    rw [Std.ExtTreeMap.getElem?_erase, Std.ExtTreeMap.getElem?_erase]
    split
    · rfl
    · exact h.getElem?_labels x
  have hfoldl (ids : List Ident) {d : Draft} {s : Sketch} (h : Follows c shows seen d s) :
      Follows c shows seen (ids.foldl (fillFrom c root) d) (ids.foldl (Sketch.fillFrom c root) s) := by
    induction ids generalizing d s with
    | nil => exact h
    | cons id ids ih =>
        refine ih ?_
        obtain rfl := h.sketch_eq
        rw [fillFrom, Sketch.fillFrom]
        cases d.sketch.links[id]? with
        | none => exact h
        | some p => exact h.fillUp
  exact hfoldl d.sketch.links.keys herase

theorem Follows.entries_eq (h : Follows c shows c.delta.edits d s) (hroot : root ∉ s.links) :
    d.entries c root = (s.rows c root).map (entry c shows s) := by
  obtain rfl := h.sketch_eq
  rw [entries, ← List.filterMap_eq_map]
  refine List.filterMap_congr fun row hrow => ?_
  obtain ⟨y, hy, -⟩ := leadsOn_iff.1 ⟨row.2, (Sketch.mem_rows hroot).1 hrow⟩
  obtain ⟨st, hst⟩ := exists_getElem?_of_mem (Sketch.above_eq_some_iff.1 hy).1
  have hlabel := h.getElem?_labels row.1
  rw [hst, Option.map_some] at hlabel
  simp only [line?, hst, hlabel, Function.comp_apply, entry, Option.getD_some]
  rfl

end Draft

structure Entry.SameLine (a b : Entry) : Prop where
  id_eq : a.id = b.id
  status_eq : a.status = b.status
  typeName_eq : a.typeName = b.typeName
  title_eq : a.title = b.title
  depth_eq : a.depth = b.depth

end Outline

namespace Comparison

/-! ### Outlines and filters -/

/-- **An outline in one pass.** -/
def draft (c : Comparison) (root : Ident) (shows : String → String → Bool) :
    Except Fault (List Outline.Entry) := do
  let _ ← c.delta?
  let d ← Outline.Draft.pass c root shows
  return (d.fill c root).entries c root

/-- **The draft becomes the outline.** -/
theorem draft_eq_outline (c : Comparison) (root : Ident) (shows : String → String → Bool) :
    c.draft root shows = c.outline root shows := by
  cases c with
  | fresh => rfl
  | failed => rfl
  | done o n delta =>
      let c : Comparison := .done o n delta
      change (Outline.Draft.pass c root shows >>= _) =
        ((Outline.marks c.delta).mapM (fun m => c.typeName m.1) >>= _)
      have hpass := Outline.Draft.endsAlike_pass c root shows
      rw [Outline.Sketch.pass_eq] at hpass
      generalize Outline.Draft.pass c root shows = pass at hpass ⊢
      cases hnames : (Outline.marks c.delta).mapM fun m => c.typeName m.1 with
      | error e =>
          rw [hnames] at hpass
          cases hpass
          rfl
      | ok names =>
          rw [hnames] at hpass
          cases hpass with
          | ok h =>
              exact congrArg Except.ok ((h.toFollows.fill root).entries_eq
                (Outline.Sketch.root_notMem_links c root (Outline.marks c.delta)))

/-- Outlines under two filters fail together, or have the same lines but for their details. -/
theorem endsAlike_outline (c : Comparison) (root : Ident) (f g : String → String → Bool) :
    EndsAlike (List.Forall₂ Outline.Entry.SameLine) (c.outline root f) (c.outline root g) := by
  rw [outline, outline]
  cases c.delta? with
  | error e => exact .error e
  | ok d =>
      change EndsAlike _ ((Outline.marks d).mapM (fun m => c.typeName m.1) >>= _)
        ((Outline.marks d).mapM (fun m => c.typeName m.1) >>= _)
      cases (Outline.marks d).mapM fun m => c.typeName m.1 with
      | error e => exact .error e
      | ok names =>
          refine .ok (List.forall₂_map_left_iff.2 (List.forall₂_map_right_iff.2 ?_))
          exact List.forall₂_same.2 fun row _ => ⟨rfl, rfl, rfl, rfl, rfl⟩

/-- **The filter selects details only.** -/
theorem outline_filter (c : Comparison) (root : Ident) (f g : String → String → Bool) :
    c.draft root f = c.outline root f ∧
    EndsAlike (List.Forall₂ Outline.Entry.SameLine) (c.outline root f) (c.outline root g) ∧
    ∀ entries, c.outline root f = .ok entries → ∀ a ∈ entries,
      (a.status = .edited → ∃ n, c.old.nodes[a.id]?.or c.new.nodes[a.id]? = some n ∧
        a.details = (c.delta.edits.filter fun e => e.owner == a.id && f n.typeTag e.name).map .ofEdit) ∧
      (a.status ≠ .edited → a.details = []) := by
  refine ⟨draft_eq_outline c root f, endsAlike_outline c root f g, fun entries hentries a ha => ?_⟩
  obtain ⟨-, -, hdetails⟩ := Outline.labels_of_mem_outline hentries ha
  constructor
  · intro hst
    have hknown := Outline.isKnown_of_mem_outline hentries ha (by rw [hst]; decide)
    obtain ⟨n, hn⟩ := Option.ne_none_iff_exists'.1 (mt node?_eq_none_iff.1 (not_not_intro hknown))
    refine ⟨n, hn, ?_⟩
    rw [hdetails, hst]
    simp only [Outline.details, hn]
  · intro hst
    rw [hdetails]
    cases hst' : a.status with
    | edited => exact absurd hst' hst
    | same | removed | added => rfl

/-- Three properties of one object change, and so does one of an object that moves below it.  One filter
lets all names but one pass for a full type tag, and the other one nothing. -/
theorem outline_filter_by_name :
    let point (id name text : String) : Property := .point ⟨id⟩ name .string (.ofText text)
    let old : Snapshot := ⟨[⟨some ⟨"w"⟩, "k.T", ⟨"a"⟩, 0⟩, ⟨some ⟨"w"⟩, "k.T", ⟨"b"⟩, 1⟩],
      [point "a" "x" "1", point "a" "y" "1", .point ⟨"a"⟩ "z" .boolean (.ofJson (.bool true)),
        point "b" "x" "1"]⟩
    let new : Snapshot := ⟨[⟨some ⟨"w"⟩, "k.T", ⟨"a"⟩, 0⟩, ⟨some ⟨"a"⟩, "k.T", ⟨"b"⟩, 1⟩],
      [point "a" "x" "2", point "a" "y" "2", point "b" "x" "2"]⟩
    let f : String → String → Bool := fun tag name => tag == "k.T" && name != "y"
    let g : String → String → Bool := fun _ _ => false
    ∃ c entries entries', fresh.compare old new = (.ok (), c) ∧
      c.outline ⟨"w"⟩ f = .ok entries ∧ c.outline ⟨"w"⟩ g = .ok entries' ∧
      entries = [
        ⟨⟨"a"⟩, .edited, "T", none, 0, [⟨"x", "\"1\"", "\"2\""⟩, ⟨"z", "true", "null"⟩]⟩,
        ⟨⟨"b"⟩, .added, "T", none, 1, []⟩] ∧
      List.Forall₂ Outline.Entry.SameLine entries entries' ∧
      ∀ a ∈ entries', a.details = [] := by
  intro point old new f g
  let c := (fresh.compare old new).2
  let entries : List Outline.Entry := [
    ⟨⟨"a"⟩, .edited, "T", none, 0, [⟨"x", "\"1\"", "\"2\""⟩, ⟨"z", "true", "null"⟩]⟩,
    ⟨⟨"b"⟩, .added, "T", none, 1, []⟩]
  have hc : fresh.compare old new = (.ok (), c) := Prod.ext (by rfl) rfl
  have hf : c.outline ⟨"w"⟩ f = .ok entries := by decide +kernel
  obtain ⟨-, halike, -⟩ := outline_filter c ⟨"w"⟩ f g
  rw [hf] at halike
  generalize hg : c.outline ⟨"w"⟩ g = outlined at halike
  cases halike with
  | @ok _ entries' hsame =>
      refine ⟨c, entries, entries', hc, hf, hg, rfl, hsame, fun a ha => ?_⟩
      obtain ⟨-, -, hdetails⟩ := outline_filter c ⟨"w"⟩ g f
      by_cases hst : a.status = .edited
      · obtain ⟨n, -, heq⟩ := (hdetails entries' hg a ha).1 hst
        rw [heq, List.filter_eq_nil_iff.2 fun e _ htrue => ?_]
        · rfl
        · exact Bool.false_ne_true (Bool.and_eq_true_iff.1 htrue).2
      · exact (hdetails entries' hg a ha).2 hst

end Comparison

end GraphDelta
