/-
**Marks in one pass.**

An outline marks all changed objects at once, each by how it changes.  They can also be marked while the
changes come by: first the removals, then the additions, then the edits.  A removal marks nothing where
the object is added again, and an edit marks nothing where the object has a mark; so an object that has
several edits is marked by the first of them.  The pass fails at the first object that is not known, and
it makes the same marks in the same order.

Main definitions:

* `Outline.Sketch.remove`, `Outline.Sketch.add`, `Outline.Sketch.edit` — what is done when a change
  comes by;
* `Outline.Sketch.pass` — the changes come by.

Main results:

* `Outline.Sketch.foldlM_remove`, `Outline.Sketch.foldlM_edit` — what is marked by removals and by edits;
* `Outline.Sketch.pass_eq` — **one pass marks what an outline marks**.
-/
import GraphDelta.Proofs.Tracing

set_option autoImplicit false

namespace GraphDelta.Outline.Sketch

variable {c : Comparison} {root x : Ident} {s : Sketch}

/-! ### Passes -/

/-- Marks an object and links what is above it, if the object is known. -/
def mark (c : Comparison) (root : Ident) (s : Sketch) (m : Ident × Status) : Except Fault Sketch := do
  let _ ← c.typeName m.1
  return s.link c root m

/-- A removal comes by.  An object that is added again is marked then. -/
def remove (c : Comparison) (root : Ident) (s : Sketch) (n : Node) : Except Fault Sketch :=
  if c.delta.adds n.id then .ok s else s.mark c root (n.id, .removed)

/-- An addition comes by. -/
def add (c : Comparison) (root : Ident) (s : Sketch) (n : Node) : Except Fault Sketch :=
  s.mark c root (n.id, .added)

/-- An edit comes by.  It marks its object, unless that is marked already. -/
def edit (c : Comparison) (root : Ident) (s : Sketch) (e : Property) : Except Fault Sketch :=
  if e.owner ∈ s.marks then .ok s else s.mark c root (e.owner, .edited)

/-- The changes come by, one after the other. -/
def pass (c : Comparison) (root : Ident) : Except Fault Sketch := do
  let s ← c.delta.removals.foldlM (remove c root) ⟨∅, ∅⟩
  let s ← c.delta.additions.foldlM (add c root) s
  c.delta.edits.foldlM (edit c root) s

/-! ### What a pass marks -/

theorem foldlM_mark (c : Comparison) (root : Ident) (l : List (Ident × Status)) (s : Sketch) :
    l.foldlM (mark c root) s = (l.mapM fun m => c.typeName m.1).map fun _ => l.foldl (link c root) s := by
  induction l generalizing s with
  | nil => rfl
  | cons m l ih =>
      rw [List.foldlM_cons, List.mapM_cons, mark]
      cases c.typeName m.1 with
      | error e => rfl
      | ok name =>
          change l.foldlM (mark c root) (s.link c root m) = _
          rw [ih]
          change _ = ((l.mapM fun m => c.typeName m.1) >>= fun names => pure (name :: names)).map _
          cases l.mapM fun m => c.typeName m.1 <;> rfl

theorem eq_of_foldlM_mark {l : List (Ident × Status)} {t : Sketch}
    (h : l.foldlM (mark c root) s = .ok t) : t = l.foldl (link c root) s := by
  rw [foldlM_mark] at h
  cases hnames : l.mapM fun m => c.typeName m.1 with
  | error e =>
      rw [hnames] at h
      cases h
  | ok names =>
      rw [hnames] at h
      exact (Except.ok.inj h).symm

theorem mem_marks_foldl_link (l : List (Ident × Status)) :
    x ∈ (l.foldl (link c root) s).marks ↔ x ∈ s.marks ∨ x ∈ l.map Prod.fst := by
  induction l generalizing s with
  | nil => simp
  | cons m l ih =>
      rw [List.foldl_cons, ih, marks_link, mem_insert_iff, List.map_cons, List.mem_cons, or_assoc,
        or_left_comm, eq_comm]

theorem foldlM_remove (l : List Node) (s : Sketch) : l.foldlM (remove c root) s =
    (((l.map Node.id).filter fun id => !c.delta.adds id).map (·, Status.removed)).foldlM
      (mark c root) s := by
  induction l generalizing s with
  | nil => rfl
  | cons n l ih =>
      rw [List.foldlM_cons, remove, List.map_cons]
      cases hadd : c.delta.adds n.id with
      | true =>
          rw [List.filter_cons_of_neg (by rw [hadd]; decide), ← ih]
          rfl
      | false =>
          rw [List.filter_cons_of_pos (by rw [hadd]; rfl), List.map_cons, List.foldlM_cons]
          exact congrArg (s.mark c root (n.id, .removed) >>= ·) (funext ih)

/-- Edits mark the objects that are not marked by then, each where it comes by first. -/
theorem foldlM_edit {met : Std.ExtTreeSet Ident} {keep : Ident → Bool}
    (hmarks : ∀ x, x ∈ s.marks ↔ keep x = false ∨ x ∈ met) (l : List Property) :
    l.foldlM (edit c root) s =
      (((unseen met (l.map Property.owner)).filter keep).map (·, Status.edited)).foldlM
        (mark c root) s := by
  induction l generalizing s met with
  | nil => rfl
  | cons e l ih =>
      rw [List.foldlM_cons, edit, List.map_cons, unseen]
      by_cases hmem : e.owner ∈ s.marks
      · rw [if_pos hmem]
        change l.foldlM (edit c root) s = _
        split
        · exact ih hmarks
        · rename_i hno
          have hkeep : keep e.owner = false := ((hmarks _).1 hmem).resolve_right fun h =>
            hno (Std.ExtTreeSet.mem_iff_contains.1 h)
          rw [List.filter_cons_of_neg (by rw [hkeep]; decide)]
          refine ih fun x => (hmarks x).trans ?_
          rw [Std.ExtTreeSet.mem_insert, Std.LawfulEqOrd.compare_eq_iff_eq]
          refine ⟨Or.imp_right .inr, fun h => h.elim .inl fun h => h.elim (fun heq => ?_) .inr⟩
          exact .inl (heq ▸ hkeep)
      · obtain ⟨hkeep, hmet⟩ : keep e.owner = true ∧ e.owner ∉ met := by
          rw [hmarks, not_or, Bool.not_eq_false] at hmem
          exact hmem
        rw [if_neg hmem, if_neg fun h => hmet (Std.ExtTreeSet.mem_iff_contains.2 h),
          List.filter_cons_of_pos hkeep, List.map_cons, List.foldlM_cons, mark]
        cases c.typeName e.owner with
        | error e => rfl
        | ok name =>
            refine ih fun x => ?_
            rw [marks_link, mem_insert_iff, hmarks, Std.ExtTreeSet.mem_insert,
              Std.LawfulEqOrd.compare_eq_iff_eq, or_left_comm]

/-- **One pass marks what an outline marks**, and fails where an outline does. -/
theorem pass_eq (c : Comparison) (root : Ident) : pass c root =
    ((Outline.marks c.delta).mapM fun m => c.typeName m.1).map fun _ =>
      (Outline.marks c.delta).foldl (link c root) ⟨∅, ∅⟩ := by
  let removed := (c.delta.removals.map Node.id).filter fun id => !c.delta.adds id
  let added := c.delta.additions.map Node.id
  let places := removed.map (·, Status.removed) ++ added.map (·, Status.added)
  have hplaces : (c.delta.removals.foldlM (remove c root) ⟨∅, ∅⟩ >>=
      c.delta.additions.foldlM (add c root)) = places.foldlM (mark c root) ⟨∅, ∅⟩ := by
    rw [List.foldlM_append, foldlM_remove, List.map_map]
    refine congrArg (_ >>= ·) (funext fun s => ?_)
    rw [List.foldlM_map]
    rfl
  have hmarks : Outline.marks c.delta = places ++ ((distinct (c.delta.edits.map Property.owner)).filter
      fun id => !removed.contains id && !added.contains id).map (·, .edited) := rfl
  rw [← foldlM_mark, hmarks, List.foldlM_append, pass, ← bind_assoc, hplaces]
  cases hs : places.foldlM (mark c root) ⟨∅, ∅⟩ with
  | error e => rfl
  | ok s =>
      refine foldlM_edit (fun x => ?_) c.delta.edits
      have hids : places.map Prod.fst = removed ++ added := by
        rw [List.map_append, List.map_map, List.map_map]
        exact congrArg₂ _ (List.map_id removed) (List.map_id added)
      rw [eq_of_foldlM_mark hs, mem_marks_foldl_link, hids, List.mem_append]
      simp [or_iff_not_imp_left]

end GraphDelta.Outline.Sketch
