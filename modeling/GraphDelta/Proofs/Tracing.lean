/-
**What a sketch holds.**

The first pass over the changed objects may link an object several times, from either snapshot, and it
stops at what is linked already.  It makes no difference: whatever it links it links to what the object
is shown under, as it starts from changed objects only.  The second pass follows the same pointers.  So
in the end a sketch holds what the pointers lead to from the changed objects, as far as the root, and
nothing else; and all of it that leads to the root is marked and linked.

The pass that fills in what does not change is a search with things to do: whatever is linked is linked
to something marked, unless its turn has not come.

Main definitions:

* `Outline.Reached` — a changed object, or something that pointers lead to from one;
* `Outline.Sketch.Traced` — links are pointers, and start from what is reached;
* `Outline.Sketch.Filling` — a sketch in the second pass.

Main results:

* `Outline.Sketch.traced_link` — a step of the first pass makes links that are pointers;
* `Outline.Sketch.FillsUp.filling` — **a way up of the second pass does one thing that is to do**;
* `Outline.Sketch.filling_ofMarks` — in the end, nothing is to do;
* `Outline.Sketch.Filling.follow_above_iff` — **the links lead to the root from what is reached and
  leads there.**
-/
import GraphDelta.Proofs.Placement

set_option autoImplicit false

namespace GraphDelta.Outline

variable {old new : Snapshot} {c : Comparison} {m : NodeMap} {s t : Sketch} {root id x y p q : Ident}
  {st : Status} {todo todo' : Ident → Prop} {k : Nat}

/-- A changed object, or something that the pointers of the outline lead to from one. -/
def Reached (c : Comparison) (root y : Ident) : Prop :=
  ∃ x st, Changes c.delta x st ∧ Leads (upTo root c.shownUnder?) x y

theorem Reached.of_changes (h : Changes c.delta x st) : Reached c root x := ⟨x, st, h, .refl x⟩

theorem Reached.step (h : Reached c root x) (hy : upTo root c.shownUnder? x = some y) :
    Reached c root y := by
  obtain ⟨w, st, hw, hwx⟩ := h
  exact ⟨w, st, hw, hwx.trans (.single hy)⟩

namespace Sketch

/-! ### The first pass -/

/-- Whatever is linked is reached, and linked to what it is shown under. -/
def Traced (c : Comparison) (root : Ident) (s : Sketch) : Prop :=
  ∀ y q, s.links[y]? = some q → upTo root c.shownUnder? y = some q ∧ Reached c root y

theorem Traced.insert (hs : Traced c root s) (hp : upTo root c.shownUnder? x = some p)
    (hx : Reached c root x) (marks : Std.ExtTreeMap Ident Status) :
    Traced c root ⟨marks, s.links.insert x p⟩ := by
  intro y q hq
  rw [Std.ExtTreeMap.getElem?_insert] at hq
  split at hq
  · rename_i hxy
    cases Std.LawfulEqOrd.eq_of_compare hxy
    cases hq
    exact ⟨hp, hx⟩
  · exact hs y q hq

/-- A way up of the first pass makes links that are pointers, as long as the parents in the map are. -/
theorem LinksUp.traced (h : LinksUp m root id s t) (agrees : Ident → Prop)
    (hstep : ∀ a b, agrees a → m.parent? a = some b → c.shownUnder? a = some b ∧ agrees b)
    (hid : agrees id) (hreached : Reached c root id) (hs : Traced c root s) : Traced c root t := by
  induction h with
  | stop => exact hs
  | top => exact hs
  | step hgo hp _ ih =>
      obtain ⟨hshown, hagrees⟩ := hstep _ _ hid hp
      have hnext := upTo_eq_some_iff.2 ⟨fun heq => hgo (.inl heq), hshown⟩
      exact ih hagrees (hreached.step hnext) (hs.insert hnext hreached _)

theorem LinksUp.mem_links (h : LinksUp m root id s t) (hy : y ∈ s.links) : y ∈ t.links := by
  induction h with
  | stop => exact hy
  | top => exact hy
  | step _ _ _ ih => exact ih (mem_insert_iff.2 (.inr hy))

theorem marks_link (c : Comparison) (root : Ident) (s : Sketch) (x : Ident) (st : Status) :
    (link c root s (x, st)).marks = s.marks.insert x st := by
  rcases link_cases c root s x st with ⟨-, heq⟩ | ⟨p, -, -, hup⟩
  · rw [heq]
  · rw [hup.marks_eq]

theorem mem_links_link (hy : y ∈ s.links) (mark : Ident × Status) :
    y ∈ (link c root s mark).links := by
  rcases link_cases c root s mark.1 mark.2 with ⟨-, heq⟩ | ⟨p, -, -, hup⟩
  · rw [heq]
    exact hy
  · exact hup.mem_links (mem_insert_iff.2 (.inr hy))

/-- What a step does for its item and no other step undoes has been done for every item in the end. -/
theorem of_mem_foldl {α σ : Type} {f : σ → α → σ} {l : List α} {a : α} (kept : σ → α → Prop)
    (hown : ∀ s, ∀ a ∈ l, kept (f s a) a) (hkeep : ∀ s a b, kept s a → kept (f s b) a) (ha : a ∈ l)
    (s : σ) : kept (l.foldl f s) a := by
  induction l generalizing s with
  | nil => exact absurd ha List.not_mem_nil
  | cons b l ih =>
      rcases List.mem_cons.1 ha with rfl | ha
      · exact List.foldlRecOn (motive := fun s => kept s a) l f (hown s a List.mem_cons_self)
          fun s hs b _ => hkeep s a b hs
      · exact ih (fun s a ha => hown s a (List.mem_cons_of_mem b ha)) ha (f s b)

/-- A sketch in the second pass, with links that are to do still. -/
structure Filling (c : Comparison) (root : Ident) (todo : Ident → Prop) (s : Sketch) : Prop where
  traced : Traced c root s
  /-- What is marked is reached; it is marked by how it changes, or as unchanged if it does not. -/
  marked : ∀ y st, s.marks[y]? = some st → y ≠ root ∧ Reached c root y ∧
    (Changes c.delta y st ∨ st = .same ∧ ∀ st', ¬ Changes c.delta y st')
  changed : ∀ x st, Changes c.delta x st → x ≠ root → x ∈ s.marks
  linked : ∀ y q, y ∈ s.marks → upTo root c.shownUnder? y = some q → y ∈ s.links
  /-- What is linked is linked to something marked, unless that is the root, or unknown, or to do. -/
  closed : ∀ y q, y ∈ s.links → upTo root c.shownUnder? y = some q → ¬ todo y →
    q = root ∨ q ∈ s.marks ∨ ¬ c.IsKnown q

theorem Filling.weaken (hs : Filling c root todo s) (h : ∀ y ∈ s.links, todo y → todo' y) :
    Filling c root todo' s where
  traced := hs.traced
  marked := hs.marked
  changed := hs.changed
  linked := hs.linked
  closed y q hy hq hno := hs.closed y q hy hq fun htodo => hno (h y hy htodo)

section

variable (hc : Comparison.fresh.compare old new = (.ok (), c)) (h : old.Compatible new)

include hc h

/-- **A step of the first pass makes links that are pointers.** -/
theorem traced_link (hx : Changes c.delta x st) (hs : Traced c root s) :
    Traced c root (link c root s (x, st)) := by
  rcases link_cases c root s x st with ⟨-, heq⟩ | ⟨p, hne, hp, hup⟩
  · rw [heq]
    exact hs
  · have hparent := Comparison.parent?_home hc h hx
    rw [hparent] at hp
    obtain ⟨hshown, hsteady⟩ := Comparison.Steady.step hc (Comparison.steady_of_changes hc h hx) hp
    have hnext := upTo_eq_some_iff.2 ⟨hne, hshown⟩
    have hreached : Reached c root x := .of_changes hx
    refine hup.traced (c.Steady st) ?_ hsteady (hreached.step hnext)
      (hs.insert hnext hreached _)
    intro a b ha hab
    rw [hparent] at hab
    exact Comparison.Steady.step hc ha hab

/-- A changed object gets linked, unless it is the root or has no parent. -/
theorem mem_links_link_self (hx : Changes c.delta x st) (hy : upTo root c.shownUnder? x = some y)
    (s : Sketch) : x ∈ (link c root s (x, st)).links := by
  obtain ⟨hne, hy⟩ := upTo_eq_some_iff.1 hy
  rw [Comparison.shownUnder?_of_changes hx, ← Comparison.parent?_home hc h hx] at hy
  rcases link_cases c root s x st with ⟨heq | hnone, -⟩ | ⟨p, -, -, hup⟩
  · exact absurd heq hne
  · rw [hnone] at hy
    cases hy
  · exact hup.mem_links (mem_insert_iff.2 (.inl rfl))

/-- The first pass marks the changed objects and makes links that are pointers. -/
theorem traced_foldl_link (root : Ident) (l : List (Ident × Status))
    (hl : ∀ a ∈ l, Changes c.delta a.1 a.2) :
    Traced c root (l.foldl (link c root) ⟨∅, ∅⟩) ∧
      ∀ y st, (l.foldl (link c root) ⟨∅, ∅⟩).marks[y]? = some st → Changes c.delta y st := by
  refine List.foldlRecOn (motive := fun s : Sketch => Traced c root s ∧
    ∀ y st, s.marks[y]? = some st → Changes c.delta y st) l _ ⟨?_, ?_⟩ ?_
  · intro y q hq
    rw [Std.ExtTreeMap.getElem?_empty] at hq
    cases hq
  · intro y st hst
    rw [Std.ExtTreeMap.getElem?_empty] at hst
    cases hst
  · rintro s ⟨htraced, hmarked⟩ ⟨x, st⟩ ha
    have hx := hl (x, st) ha
    refine ⟨traced_link hc h hx htraced, fun y st' hy => ?_⟩
    rw [marks_link, Std.ExtTreeMap.getElem?_insert] at hy
    split at hy
    · rename_i hxy
      cases Std.LawfulEqOrd.eq_of_compare hxy
      cases hy
      exact hx
    · exact hmarked y st' hy

/-- After the first pass, every link is to do. -/
theorem filling_linked {s : Sketch} (hs : s = (Outline.marks c.delta).foldl (link c root) ⟨∅, ∅⟩) :
    Filling c root (· ∈ s.links) ⟨s.marks.erase root, s.links⟩ := by
  have hmarks : ∀ a ∈ Outline.marks c.delta, Changes c.delta a.1 a.2 := fun a ha => mem_marks.1 ha
  obtain ⟨htraced, hmarked⟩ := traced_foldl_link hc h root _ hmarks
  rw [← hs] at htraced hmarked
  have hall {x : Ident} {st : Status} (hx : Changes c.delta x st) : x ∈ s.marks ∧
      ∀ q, upTo root c.shownUnder? x = some q → x ∈ s.links := by
    rw [hs]
    refine of_mem_foldl (fun (s : Sketch) (a : Ident × Status) => a.1 ∈ s.marks ∧
      ∀ q, upTo root c.shownUnder? a.1 = some q → a.1 ∈ s.links) ?_ ?_ (mem_marks.2 hx) ⟨∅, ∅⟩
    · rintro s ⟨x, st⟩ ha
      refine ⟨?_, fun q hq => mem_links_link_self hc h (hmarks _ ha) hq s⟩
      rw [marks_link, mem_insert_iff]
      exact .inl rfl
    · rintro s ⟨x, st⟩ ⟨y, st'⟩ ⟨hx, hlinked⟩
      refine ⟨?_, fun q hq => mem_links_link (hlinked q hq) (y, st')⟩
      rw [marks_link, mem_insert_iff]
      exact .inr hx
  refine ⟨htraced, ?_, ?_, ?_, fun y q hy _ hno => absurd hy hno⟩
  · intro y st hst
    rw [Std.ExtTreeMap.getElem?_erase] at hst
    split at hst
    · cases hst
    · rename_i hne
      have hy := hmarked y st hst
      exact ⟨fun heq => hne (Std.LawfulEqOrd.compare_eq_iff_eq.2 heq.symm), .of_changes hy, .inl hy⟩
  · intro x st hx hne
    refine Std.ExtTreeMap.mem_erase.2 ⟨fun heq => hne ?_, (hall hx).1⟩
    exact (Std.LawfulEqOrd.eq_of_compare heq).symm
  · intro y q hy hq
    obtain ⟨st, hst⟩ := exists_getElem?_of_mem (Std.ExtTreeMap.mem_of_mem_erase hy)
    exact (hall (hmarked y st hst)).2 q hq

/-! ### The second pass -/

omit h in
/-- An unmarked object of one of the snapshots is not changed, and shown under what its record names. -/
theorem Filling.upTo_shownUnder? (hs : Filling c root todo s) (hgo : ¬ (id = root ∨ id ∈ s.marks))
    {n : Node} (hn : c.node? id = some n) : upTo root c.shownUnder? id = n.parent := by
  have hno : c.delta.adds id = false := by
    by_contra hadd
    rw [Bool.not_eq_false] at hadd
    exact hgo (.inr (hs.changed id .added hadd fun heq => hgo (.inl heq)))
  rw [upTo, if_neg fun heq => hgo (.inl heq)]
  exact Comparison.shownUnder?_of_node? hc hno hn

omit hc h in
theorem Filling.marked_insert (hs : Filling c root todo s) (hgo : ¬ (id = root ∨ id ∈ s.marks))
    (hid : Reached c root id) {y : Ident} {st : Status}
    (hy : (s.marks.insert id .same)[y]? = some st) : y ≠ root ∧ Reached c root y ∧
      (Changes c.delta y st ∨ st = .same ∧ ∀ st', ¬ Changes c.delta y st') := by
  rw [Std.ExtTreeMap.getElem?_insert] at hy
  split at hy
  · rename_i heq
    cases Std.LawfulEqOrd.eq_of_compare heq
    cases hy
    have hne : id ≠ root := fun heq => hgo (.inl heq)
    exact ⟨hne, hid, .inr ⟨rfl, fun st' hst' => hgo (.inr (hs.changed id st' hst' hne))⟩⟩
  · exact hs.marked y st hy

omit h in
/-- **A way up of the second pass does one thing that is to do.** -/
theorem FillsUp.filling (hup : FillsUp c root id s t) (hid : Reached c root id)
    (hs : Filling c root (fun y => todo y ∨ upTo root c.shownUnder? y = some id) s) :
    Filling c root todo t := by
  have hdone {s : Sketch} {a : Ident}
      (hs : Filling c root (fun y => todo y ∨ upTo root c.shownUnder? y = some a) s)
      (hfound : a = root ∨ a ∈ s.marks ∨ ¬ c.IsKnown a) : Filling c root todo s := by
    refine ⟨hs.traced, hs.marked, hs.changed, hs.linked, fun y q hy hq hno => ?_⟩
    by_cases heq : q = a
    · exact heq ▸ hfound
    · refine hs.closed y q hy hq fun htodo => htodo.elim hno fun hq' => heq ?_
      exact Option.some_inj.1 (hq.symm.trans hq')
  induction hup with
  | stop hstop => exact hdone hs (hstop.imp_right .inl)
  | unknown _ hnone => exact hdone hs (.inr (.inr (Comparison.node?_eq_none_iff.1 hnone)))
  | @top id s n hgo hn hp =>
      have hnext := hs.upTo_shownUnder? hc hgo hn
      rw [hp] at hnext
      refine hdone (a := id) ⟨hs.traced, fun y st => hs.marked_insert hgo hid, ?_, ?_, ?_⟩
        (.inr (.inl (mem_insert_iff.2 (.inl rfl))))
      · exact fun x st hx hne => mem_insert_iff.2 (.inr (hs.changed x st hx hne))
      · intro y q hy hq
        rcases mem_insert_iff.1 hy with rfl | hy
        · rw [hnext] at hq
          cases hq
        · exact hs.linked y q hy hq
      · intro y q hy hq hno
        refine (hs.closed y q hy hq hno).imp_right fun hfound => hfound.imp_left fun hm => ?_
        exact mem_insert_iff.2 (.inr hm)
  | @step id p s t n hgo hn hp _ ih =>
      have hnext := hs.upTo_shownUnder? hc hgo hn
      rw [hp] at hnext
      refine ih (hid.step hnext) ⟨hs.traced.insert hnext hid _, fun y st => hs.marked_insert hgo hid,
        ?_, ?_, ?_⟩
      · exact fun x st hx hne => mem_insert_iff.2 (.inr (hs.changed x st hx hne))
      · intro y q hy hq
        rcases mem_insert_iff.1 hy with rfl | hy
        · exact mem_insert_iff.2 (.inl rfl)
        · exact mem_insert_iff.2 (.inr (hs.linked y q hy hq))
      · intro y q hy hq hno
        rcases mem_insert_iff.1 hy with rfl | hy
        · exact absurd (.inr hnext) hno
        · by_cases heq : q = id
          · exact .inr (.inl (mem_insert_iff.2 (.inl heq.symm)))
          · have htodo : ¬ (todo y ∨ upTo root c.shownUnder? y = some id) := fun htodo =>
              htodo.elim (fun ht => hno (.inl ht)) fun hq' => heq (Option.some_inj.1 (hq.symm.trans hq'))
            refine (hs.closed y q hy hq htodo).imp_right fun hfound => hfound.imp_left fun hm => ?_
            exact mem_insert_iff.2 (.inr hm)

omit h in
/-- One item after the other, everything is done. -/
theorem filling_foldl {keys : List Ident} (hs : Filling c root (· ∈ keys) s) :
    Filling c root (fun _ => False) (keys.foldl (fillFrom c root) s) := by
  induction keys generalizing s with
  | nil => exact hs.weaken fun y _ hy => List.not_mem_nil hy
  | cons a keys ih =>
      rw [List.foldl_cons]
      rcases fillFrom_cases c root s a with ⟨hnone, heq⟩ | ⟨p, hp, hup⟩
      · rw [heq]
        refine ih (hs.weaken fun y hy htodo => (List.mem_cons.1 htodo).resolve_left ?_)
        rintro rfl
        rw [Std.ExtTreeMap.mem_iff_isSome_getElem?, hnone] at hy
        exact Bool.false_ne_true hy
      · obtain ⟨hnext, hreached⟩ := hs.traced a p hp
        refine ih (hup.filling hc (hreached.step hnext) (hs.weaken fun y _ htodo => ?_))
        rcases List.mem_cons.1 htodo with rfl | htodo
        · exact .inr hnext
        · exact .inl htodo

/-- **In the end, nothing is to do.** -/
theorem filling_ofMarks (root : Ident) :
    Filling c root (fun _ => False) (ofMarks c root (Outline.marks c.delta)) := by
  rw [ofMarks, fill_eq]
  refine filling_foldl hc ((filling_linked hc h rfl).weaken fun y hy _ => ?_)
  exact Std.ExtTreeMap.mem_keys.2 hy

end

/-! ### What leads to the root -/

section

variable (hs : Filling c root (fun _ => False) s)

include hs

theorem Filling.status_eq_iff (hy : y ∈ s.marks) : s.marks[y]?.getD .same = st ↔
    Changes c.delta y st ∨ st = .same ∧ ∀ st', ¬ Changes c.delta y st' := by
  obtain ⟨st', hst'⟩ := exists_getElem?_of_mem hy
  have hmarked := (hs.marked y st' hst').2.2
  rw [hst', Option.getD_some]
  constructor
  · rintro rfl
    exact hmarked
  · rintro (hst | ⟨rfl, hno⟩)
    · rcases hmarked with hst' | ⟨-, hno⟩
      · exact hst'.eq hst
      · exact absurd hst (hno st)
    · rcases hmarked with hst' | ⟨heq, -⟩
      · exact absurd hst' (hno st')
      · exact heq

theorem Filling.mem_marks (hy : Reached c root y) (hroot : LeadsOn (upTo root c.shownUnder?) y root) :
    y ∈ s.marks := by
  obtain ⟨x, st, hx, k, hk⟩ := hy
  -- induction on the distance from a changed object, which is marked
  induction k generalizing y with
  | zero =>
      cases hk
      obtain ⟨a, ha, -⟩ := leadsOn_iff.1 hroot
      exact hs.changed x st hx (upTo_eq_some_iff.1 ha).1
  | succ k ih =>
      rw [follow_succ_right] at hk
      obtain ⟨z, hz, hzy⟩ := Option.bind_eq_some_iff.1 hk
      have hmark := ih (leadsOn_iff.2 ⟨y, hzy, hroot.leads⟩) hz
      obtain ⟨a, ha, -⟩ := leadsOn_iff.1 hroot
      obtain ⟨hne, hshown⟩ := upTo_eq_some_iff.1 ha
      rcases hs.closed z y (hs.linked z y hmark hzy) hzy id with heq | hy | hno
      · exact absurd heq hne
      · exact hy
      · exact absurd (Comparison.isKnown_of_shownUnder? hshown) hno

theorem Filling.above_eq (hy : Reached c root y) (hroot : LeadsOn (upTo root c.shownUnder?) y root)
    (hp : upTo root c.shownUnder? y = some p) : s.above y = some p := by
  have hmark := hs.mem_marks hy hroot
  obtain ⟨q, hq⟩ := exists_getElem?_of_mem (hs.linked y p hmark hp)
  rw [← hp, (hs.traced y q hq).1]
  exact above_eq_some_iff.2 ⟨hmark, hq⟩

/-- **The links lead to the root from what is reached and leads there.** -/
theorem Filling.follow_above_iff : follow s.above (k + 1) y = some root ↔
    Reached c root y ∧ follow (upTo root c.shownUnder?) (k + 1) y = some root := by
  have hpointer (a b : Ident) (hab : s.above a = some b) : upTo root c.shownUnder? a = some b :=
    (hs.traced a b (above_eq_some_iff.1 hab).2).1
  constructor
  · intro hk
    obtain ⟨a, ha, -⟩ := leadsOn_iff.1 ⟨k, hk⟩
    exact ⟨(hs.traced y a (above_eq_some_iff.1 ha).2).2, follow_mono hpointer hk⟩
  · rintro ⟨hy, hk⟩
    induction k generalizing y with
    | zero =>
        obtain ⟨a, ha, har⟩ := Option.bind_eq_some_iff.1 hk
        rw [follow_succ, hs.above_eq hy ⟨0, hk⟩ ha]
        exact har
    | succ k ih =>
        obtain ⟨a, ha, hak⟩ := Option.bind_eq_some_iff.1 hk
        rw [follow_succ, hs.above_eq hy ⟨k + 1, hk⟩ ha]
        exact ih (hy.step ha) hak

end

end Sketch

end GraphDelta.Outline
