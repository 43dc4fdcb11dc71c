/-
**Every outline is a forest.**

Whatever the parents of the two snapshots are like — missing, or running in cycles — and whatever has
been done to the additions of a comparison since it was made, the comparison has an outline below every
root, unless an edit speaks of an object that is in neither snapshot.  The outline lists trees: no
object twice, the root not at all, and siblings by their places.

None of the three loops of an outline is ended by the bound on its steps.

Main definitions:

* `Outline.Bounded` — no bound ends a loop of an outline;
* `Outline.Forested` — the entries of an outline are trees, written down one after the other.

Main results:

* `Comparison.Derived.mem_objects` — what is removed was there, and what is added will be;
* `Comparison.outline_eq_ok_iff`, `Comparison.outline_eq_error` — when there is an outline;
* `Comparison.outline_forested` — **every outline is a forest**.
-/
import GraphDelta.Proofs.Effect
import GraphDelta.Proofs.Grove
import GraphDelta.Proofs.Sketch

set_option autoImplicit false

namespace GraphDelta

variable {old new : Snapshot} {c c' : Comparison} {d d' : Delta} {root x : Ident}
  {shows : String → String → Bool}

namespace Outline

/-- No bound ends a loop of an outline: the ways up are those without a bound, and the rows are the same
to every greater height. -/
structure Bounded (c : Comparison) (root : Ident) : Prop where
  linkUp : ∀ (m : NodeMap) (id : Ident) (s : Sketch),
    Sketch.LinksUp m root id s (Sketch.linkUp m root (m.size + 1) id s)
  fillUp : ∀ (id : Ident) (s : Sketch), Sketch.FillsUp c root id s
    (Sketch.fillUp c root (c.old.nodes.size + c.new.nodes.size + 1) id s)
  rows : ∀ h, (Sketch.ofMarks c root (marks c.delta)).marks.size ≤ h →
    (Sketch.ofMarks c root (marks c.delta)).beneath c h 0 root =
      (Sketch.ofMarks c root (marks c.delta)).rows c root

theorem bounded (c : Comparison) (root : Ident) : Bounded c root where
  linkUp m id s := Sketch.linksUp_linkUp m root id s
  fillUp id s := Sketch.fillsUp_fillUp c root id s
  rows _ hh := Sketch.beneath_root_eq_rows (Sketch.root_notMem_links c root (marks c.delta)) c hh

/-- The entries are trees, written down one after the other, each object followed by what is below it.
Siblings come by place, where the new snapshot goes first, and then by identifier. -/
structure Forested (c : Comparison) (root : Ident) (entries : List Entry) : Prop where
  nodup : (entries.map Entry.id).Nodup
  root_notMem : root ∉ entries.map Entry.id
  depth_head : ∀ e ∈ entries.head?, e.depth = 0
  /-- No entry is indented by two more than the one in front of it. -/
  depth_le : entries.IsChain fun a b => b.depth ≤ a.depth + 1
  exists_grove : ∃ g : Grove, entries.map (fun e => (e.id, e.depth)) = g.lines 0 ∧
    g.Sorted (Sketch.Before c)

theorem Forested.of_grove {entries : List Entry} {g : Grove}
    (hlines : entries.map (fun e => (e.id, e.depth)) = g.lines 0) (hsorted : g.Sorted (Sketch.Before c))
    (hnodup : (entries.map Entry.id).Nodup) (hroot : root ∉ entries.map Entry.id) :
    Forested c root entries where
  nodup := hnodup
  root_notMem := hroot
  depth_head e he := by
    refine Grove.depth_of_mem_head? (g := g) (r := (e.id, e.depth)) ?_
    rw [← hlines, List.head?_map, Option.mem_def.1 he]
    rfl
  depth_le := by
    have hchain := g.isChain_lines 0
    rw [← hlines, List.isChain_map] at hchain
    exact hchain
  exists_grove := ⟨g, hlines, hsorted⟩

theorem map_entry_id (c : Comparison) (shows : String → String → Bool) (s : Sketch)
    (rows : List (Ident × Nat)) : (rows.map (entry c shows s)).map Entry.id = rows.map Prod.fst := by
  rw [List.map_map]
  rfl

theorem map_entry_line (c : Comparison) (shows : String → String → Bool) (s : Sketch)
    (rows : List (Ident × Nat)) :
    (rows.map (entry c shows s)).map (fun e => (e.id, e.depth)) = rows := by
  rw [List.map_map]
  exact List.map_id rows

theorem forested_rows (c : Comparison) (shows : String → String → Bool) {s : Sketch}
    (hroot : root ∉ s.links) : Forested c root ((s.rows c root).map (entry c shows s)) := by
  obtain ⟨g, hg, hsorted, -⟩ := Sketch.exists_grove c s root
  refine .of_grove ((map_entry_line c shows s _).trans hg) hsorted ?_ ?_
  · rw [map_entry_id]
    exact Sketch.nodup_rows hroot c
  · rw [map_entry_id]
    exact Sketch.root_notMem_rows hroot c

end Outline

/-! ### What is changed -/

theorem Delta.removals_of_omitRoot? {place : Ident} {newRoot : Option Ident}
    (h : d.omitRoot? place newRoot = some d') : d'.removals = d.removals := by
  rw [omitRoot?] at h
  obtain ⟨root, -, hroot⟩ := Option.bind_eq_some_iff.1 h
  cases hroot
  rfl

theorem Delta.id_rehang (root newRoot : Ident) (n : Node) : (rehang root newRoot n).id = n.id := by
  rw [rehang]
  split <;> rfl

theorem exists_append_of_find? {α : Type} {p : α → Bool} {l : List α} {a : α}
    (h : l.find? p = some a) :
    ∃ before after, l = before ++ a :: after ∧ l.eraseP p = before ++ after := by
  obtain ⟨hp, before, after, rfl, hbefore⟩ := List.find?_eq_some_iff_append.1 h
  have hno : ∀ b ∈ before, ¬ p b = true := by
    intro b hb
    simpa using hbefore b hb
  refine ⟨before, after, rfl, ?_⟩
  rw [List.eraseP_append_right _ hno, List.eraseP_cons_of_pos hp]

/-- Leaving out the top of the additions drops additions at most. -/
theorem Delta.adds_of_omitRoot? {place : Ident} {newRoot : Option Ident}
    (h : d.omitRoot? place newRoot = some d') (hx : d'.adds x = true) : d.adds x = true := by
  rw [omitRoot?] at h
  obtain ⟨root, -, hroot⟩ := Option.bind_eq_some_iff.1 h
  cases hroot
  rw [adds_eq_true_iff] at hx ⊢
  have hrest : x ∈ (d.additions.eraseP (·.isChildOf place)).map Node.id := by
    cases newRoot with
    | none => exact hx
    | some r =>
        rw [List.map_map] at hx
        simpa only [Function.comp_def, id_rehang] using hx
  exact (List.eraseP_sublist.map Node.id).subset hrest

namespace Comparison

/-- The object is in one of the snapshots. -/
def IsKnown (c : Comparison) (x : Ident) : Prop := x ∈ c.old.nodes ∨ x ∈ c.new.nodes

theorem node?_eq_none_iff : c.node? x = none ↔ ¬ c.IsKnown x := by
  rw [node?, Option.or_eq_none_iff, IsKnown, not_or, Std.ExtTreeMap.mem_iff_isSome_getElem?,
    Std.ExtTreeMap.mem_iff_isSome_getElem?, Option.not_isSome_iff_eq_none,
    Option.not_isSome_iff_eq_none]

theorem typeName_eq_error_iff {e : Fault} :
    c.typeName x = .error e ↔ ¬ c.IsKnown x ∧ e = .unresolved x := by
  rw [← node?_eq_none_iff, typeName]
  cases c.node? x with
  | none => simp [eq_comm]
  | some n => simp

/-! ### When there is an outline -/

theorem outline_eq_ok (hd : c.delta? = .ok d) (h : ∀ x st, Outline.Changes d x st → c.IsKnown x) :
    c.outline root shows = .ok (((Outline.Sketch.ofMarks c root (Outline.marks d)).rows c root).map
      (Outline.entry c shows (Outline.Sketch.ofMarks c root (Outline.marks d)))) := by
  have hnames : ∃ names, (Outline.marks d).mapM (fun mark => c.typeName mark.1) = .ok names := by
    refine exists_mapM_eq_ok_iff.2 fun mark hmark => ?_
    cases hname : c.typeName mark.1 with
    | ok name => exact ⟨name, rfl⟩
    | error e =>
        exact absurd (h mark.1 mark.2 (Outline.mem_marks.1 hmark)) (typeName_eq_error_iff.1 hname).1
  obtain ⟨names, hnames⟩ := hnames
  rw [outline, hd]
  change ((Outline.marks d).mapM (fun mark => c.typeName mark.1) >>= _) = _
  rw [hnames]
  rfl

/-- There is no outline if a changed object is not known; one of these objects is named. -/
theorem outline_eq_error (hd : c.delta? = .ok d) (h : ∃ x st, Outline.Changes d x st ∧ ¬ c.IsKnown x)
    (root : Ident) (shows : String → String → Bool) :
    ∃ x st, Outline.Changes d x st ∧ ¬ c.IsKnown x ∧ c.outline root shows = .error (.unresolved x) := by
  obtain ⟨x, st, hx, hno⟩ := h
  cases hnames : (Outline.marks d).mapM (fun mark => c.typeName mark.1) with
  | ok names =>
      obtain ⟨name, hname⟩ := exists_mapM_eq_ok_iff.1 ⟨names, hnames⟩ (x, st) (Outline.mem_marks.2 hx)
      rw [typeName_eq_error_iff.2 ⟨hno, rfl⟩] at hname
      cases hname
  | error e =>
      obtain ⟨⟨y, st'⟩, hy, hname⟩ := exists_of_mapM_eq_error hnames
      obtain ⟨hno', rfl⟩ := typeName_eq_error_iff.1 hname
      refine ⟨y, st', Outline.mem_marks.1 hy, hno', ?_⟩
      rw [outline, hd]
      change ((Outline.marks d).mapM (fun mark => c.typeName mark.1) >>= _) = _
      rw [hnames]
      rfl

theorem exists_eq_done_of_delta? (h : c.delta? = .ok d) : ∃ o n, c = .done o n d := by
  cases c with
  | fresh => cases h
  | failed => cases h
  | done o n d' =>
      cases h
      exact ⟨o, n, rfl⟩

/-- Where there is an outline, every changed object is known, and the rows of a sketch become the
entries. -/
theorem outline_eq_ok_iff {entries : List Outline.Entry} : c.outline root shows = .ok entries ↔
    ∃ d, c.delta? = .ok d ∧ (∀ x st, Outline.Changes d x st → c.IsKnown x) ∧
      entries = ((Outline.Sketch.ofMarks c root (Outline.marks d)).rows c root).map
        (Outline.entry c shows (Outline.Sketch.ofMarks c root (Outline.marks d))) := by
  constructor
  · intro h
    cases hd : c.delta? with
    | error e =>
        rw [outline, hd] at h
        cases h
    | ok d =>
        have hknown : ∀ x st, Outline.Changes d x st → c.IsKnown x := by
          by_contra hno
          push Not at hno
          obtain ⟨y, st, -, -, herror⟩ := outline_eq_error hd hno root shows
          rw [herror] at h
          cases h
        rw [outline_eq_ok hd hknown] at h
        exact ⟨d, rfl, hknown, (Except.ok.inj h).symm⟩
  · rintro ⟨d, hd, hknown, rfl⟩
    exact outline_eq_ok hd hknown

/-! ### Comparisons that were worked on -/

theorem exists_of_sort (h : c.sort = .ok c') : ∃ o n d l, c = .done o n d ∧
    c' = .done o n { d with additions := l } ∧ l.Perm d.additions := by
  cases c with
  | fresh => cases h
  | failed => cases h
  | done o n d =>
      rw [sort] at h
      cases hl : replayOrder d.additions n.nodes with
      | error f => rw [hl] at h; cases h
      | ok l =>
          rw [hl] at h
          cases h
          exact ⟨o, n, d, l, rfl, rfl, perm_of_replayOrder_eq_ok hl⟩

/-- Leaving out the top of the additions concerns the changes only. -/
theorem exists_of_omitRoot {place : Ident} {newRoot : Option Ident} {found : Bool}
    (h : c.omitRoot place newRoot = .ok (found, c')) : ∃ o n d d', c = .done o n d ∧
      c' = .done o n d' ∧ (d' = d ∨ d.omitRoot? place newRoot = some d') := by
  cases c with
  | fresh => cases h
  | failed => cases h
  | done o n d =>
      rw [omitRoot] at h
      cases hd : d.omitRoot? place newRoot with
      | none =>
          rw [hd] at h
          cases h
          exact ⟨o, n, d, d, rfl, rfl, .inl rfl⟩
      | some d' =>
          rw [hd] at h
          cases h
          exact ⟨o, n, d, d', rfl, rfl, .inr hd⟩

namespace Derived

theorem exists_eq_done (h : Derived old new c) :
    ∃ d, c = .done (.ofSnapshot old) (.ofSnapshot new) d := by
  induction h with
  | compared h =>
      obtain ⟨d, -, rfl⟩ := compare_eq_ok_iff.1 h
      exact ⟨d, rfl⟩
  | sorted _ h ih =>
      obtain ⟨d, rfl⟩ := ih
      obtain ⟨o, n, d', l, heq, rfl, -⟩ := exists_of_sort h
      cases heq
      exact ⟨_, rfl⟩
  | freed _ h ih =>
      obtain ⟨d, rfl⟩ := ih
      obtain ⟨o, n, d', d'', heq, rfl, -⟩ := exists_of_omitRoot h
      cases heq
      exact ⟨d'', rfl⟩

theorem mem_objects (h : Derived old new c) :
    (∀ r ∈ c.delta.removals, r.id ∈ old.objects) ∧
      ∀ x, c.delta.adds x = true → x ∈ new.objects := by
  induction h with
  | compared h =>
      obtain ⟨d, hd, rfl⟩ := compare_eq_ok_iff.1 h
      constructor
      · intro r hr
        have hrec := ((Delta.mem_removals (NodeMap.filed_ofList old.nodes) hd).1 hr).1
        exact NodeMap.mem_of_getElem?_eq_some hrec
      · intro x hx
        obtain ⟨n, hn, rfl⟩ := List.mem_map.1 (Delta.adds_eq_true_iff.1 hx)
        have hrec := ((Delta.mem_additions (NodeMap.filed_ofList new.nodes) hd).1 hn).1
        exact NodeMap.mem_of_getElem?_eq_some hrec
  | sorted _ h ih =>
      obtain ⟨o, n, d, l, rfl, rfl, hperm⟩ := exists_of_sort h
      refine ⟨ih.1, fun x hx => ih.2 x ?_⟩
      rw [Delta.adds_eq_true_iff] at hx ⊢
      exact (hperm.map Node.id).mem_iff.1 hx
  | freed _ h ih =>
      obtain ⟨o, n, d, d', rfl, rfl, rfl | hd⟩ := exists_of_omitRoot h
      · exact ih
      · refine ⟨fun r hr => ih.1 r ?_, fun x hx => ih.2 x (Delta.adds_of_omitRoot? hd hx)⟩
        change r ∈ d.removals
        rw [← Delta.removals_of_omitRoot? hd]
        exact hr

theorem exists_edit_of_changes (h : Derived old new c) {st : Outline.Status}
    (hx : Outline.Changes c.delta x st) (hno : ¬ c.IsKnown x) : ∃ p ∈ c.delta.edits, p.owner = x := by
  obtain ⟨hremovals, hadds⟩ := h.mem_objects
  obtain ⟨d, rfl⟩ := h.exists_eq_done
  cases st with
  | same => exact hx.elim
  | added => exact absurd (.inr (hadds x hx)) hno
  | removed =>
      obtain ⟨-, r, hr, rfl⟩ := hx
      exact absurd (.inl (hremovals r hr)) hno
  | edited => exact hx.2.2

theorem exists_changes_of_edit {p : Property} (hp : p ∈ d.edits) :
    ∃ st, Outline.Changes d p.owner st := by
  by_cases hadd : d.adds p.owner = true
  · exact ⟨.added, hadd⟩
  · rw [Bool.not_eq_true] at hadd
    by_cases hr : ∃ r ∈ d.removals, r.id = p.owner
    · exact ⟨.removed, hadd, hr⟩
    · push Not at hr
      exact ⟨.edited, hadd, hr, p, hp, rfl⟩

end Derived

/-- **Every outline is a forest.**  A comparison of any two snapshots, after its additions have been
sorted or freed of their top any number of times, has an outline below any root if every edit speaks of
an object of one of the snapshots; and then the outline is a forest.  If not, then there is none below
any root, and the owner of such an edit is named.  No bound ends a loop of the outline. -/
theorem outline_forested (h : c.Derived old new) (root : Ident) (shows : String → String → Bool) :
    Outline.Bounded c root ∧
    ((∀ p ∈ c.delta.edits, p.owner ∈ old.objects ∨ p.owner ∈ new.objects) →
      ∃ entries, c.outline root shows = .ok entries ∧ Outline.Forested c root entries) ∧
    ((∃ p ∈ c.delta.edits, ¬ (p.owner ∈ old.objects ∨ p.owner ∈ new.objects)) →
      ∃ p ∈ c.delta.edits, ¬ (p.owner ∈ old.objects ∨ p.owner ∈ new.objects) ∧
        c.outline root shows = .error (.unresolved p.owner)) := by
  have hunknown {x : Ident} {st : Outline.Status} (hx : Outline.Changes c.delta x st) :
      ¬ c.IsKnown x → ∃ p ∈ c.delta.edits, p.owner = x := h.exists_edit_of_changes hx
  obtain ⟨d, rfl⟩ := h.exists_eq_done
  refine ⟨Outline.bounded _ root, ?_, ?_⟩
  · intro hedits
    have hroot := Outline.Sketch.root_notMem_links (done (.ofSnapshot old) (.ofSnapshot new) d) root
    refine ⟨_, outline_eq_ok rfl ?_, Outline.forested_rows _ shows (hroot (Outline.marks d))⟩
    intro x st hx
    by_contra hno
    obtain ⟨p, hp, rfl⟩ := hunknown hx hno
    exact hno (hedits p hp)
  · rintro ⟨p, hp, hno⟩
    obtain ⟨st, hst⟩ := Derived.exists_changes_of_edit hp
    obtain ⟨x, st', hx, hnox, herror⟩ := outline_eq_error
      (c := done (.ofSnapshot old) (.ofSnapshot new) d) rfl ⟨p.owner, st, hst, hno⟩ root shows
    obtain ⟨q, hq, rfl⟩ := hunknown hx hnox
    exact ⟨q, hq, hnox, herror⟩

/-- Two objects are each other's parents, and the root is no object; siblings come in another order than
that of their identifiers.  In the second comparison an object that is nowhere gets a property.  In the
third one an object changes its place, and comes at the new one. -/
theorem outline_forested_around_cycle :
    let old : Snapshot := ⟨
      [⟨some ⟨"b"⟩, "T", ⟨"a"⟩, 0⟩, ⟨some ⟨"a"⟩, "T", ⟨"b"⟩, 0⟩, ⟨some ⟨"w"⟩, "T", ⟨"k"⟩, 1⟩,
        ⟨some ⟨"k"⟩, "T", ⟨"g"⟩, 2⟩],
      [.point ⟨"a"⟩ "x" .string (.ofText "1")]⟩
    let nodes : List Node :=
      [⟨some ⟨"b"⟩, "T", ⟨"a"⟩, 0⟩, ⟨some ⟨"a"⟩, "T", ⟨"b"⟩, 0⟩, ⟨some ⟨"w"⟩, "T", ⟨"k"⟩, 1⟩,
        ⟨some ⟨"k"⟩, "T", ⟨"m"⟩, 1⟩, ⟨some ⟨"w"⟩, "T", ⟨"f"⟩, 2⟩, ⟨some ⟨"w"⟩, "T", ⟨"e"⟩, 2⟩]
    let new : Snapshot := ⟨nodes, [.point ⟨"a"⟩ "x" .string (.ofText "2")]⟩
    let new' : Snapshot := ⟨nodes,
      [.point ⟨"a"⟩ "x" .string (.ofText "1"), .point ⟨"z"⟩ "x" .string (.ofText "2")]⟩
    let old₂ : Snapshot := ⟨[⟨some ⟨"w"⟩, "T", ⟨"g"⟩, 0⟩, ⟨some ⟨"w"⟩, "T", ⟨"h"⟩, 1⟩], []⟩
    let new₂ : Snapshot := ⟨[⟨some ⟨"w"⟩, "T", ⟨"g"⟩, 2⟩], []⟩
    (∃ (c : Comparison) (entries : List Outline.Entry), c.Derived old new ∧
      c.outline ⟨"w"⟩ (fun _ _ => true) = .ok entries ∧
      Outline.Bounded c ⟨"w"⟩ ∧ Outline.Forested c ⟨"w"⟩ entries ∧
      entries.map (fun e => (e.id, e.depth)) =
        [(⟨"k"⟩, 0), (⟨"m"⟩, 1), (⟨"g"⟩, 1), (⟨"f"⟩, 0)]) ∧
    (∃ c : Comparison, c.Derived old new' ∧
      c.outline ⟨"w"⟩ (fun _ _ => true) = .error (.unresolved ⟨"z"⟩)) ∧
    ∃ (c : Comparison) (entries : List Outline.Entry), c.Derived old₂ new₂ ∧
      c.outline ⟨"w"⟩ (fun _ _ => true) = .ok entries ∧ Outline.Forested c ⟨"w"⟩ entries ∧
      entries.map (fun e => (e.id, e.depth)) = [(⟨"h"⟩, 0), (⟨"g"⟩, 0)] := by
  intro old nodes new new' old₂ new₂
  let shows : String → String → Bool := fun _ _ => true
  have hcompared : Derived old new (fresh.compare old new).2 := .compared (Prod.ext (by rfl) rfl)
  have hcompared' : Derived old new' (fresh.compare old new').2 := .compared (Prod.ext (by rfl) rfl)
  have hcompared₂ : Derived old₂ new₂ (fresh.compare old₂ new₂).2 :=
    .compared (Prod.ext (by rfl) rfl)
  obtain ⟨c, homitted, hedits, hlines⟩ : ∃ c : Comparison,
      (fresh.compare old new).2.omitRoot ⟨"w"⟩ none = .ok (true, c) ∧
      (∀ p ∈ c.delta.edits, p.owner ∈ old.objects ∨ p.owner ∈ new.objects) ∧
      (c.outline ⟨"w"⟩ shows).map (List.map fun e => (e.id, e.depth)) =
        .ok [(⟨"k"⟩, 0), (⟨"m"⟩, 1), (⟨"g"⟩, 1), (⟨"f"⟩, 0)] :=
    ⟨_, by rfl, by decide +kernel, by decide +kernel⟩
  have hderived : Derived old new c := hcompared.freed homitted
  refine ⟨?_, ?_, ?_⟩
  · obtain ⟨hbounded, hok, -⟩ := outline_forested hderived ⟨"w"⟩ shows
    obtain ⟨entries, hentries, hforested⟩ := hok hedits
    rw [hentries] at hlines
    exact ⟨c, entries, hderived, hentries, hbounded, hforested, Except.ok.inj hlines⟩
  · obtain ⟨-, -, herror⟩ := outline_forested hcompared' ⟨"w"⟩ shows
    have hedits' : (fresh.compare old new').2.delta.edits =
        [⟨⟨"z"⟩, "x", .string, .null, .ofText "2", true⟩] := by decide +kernel
    obtain ⟨p, hp, -, houtline⟩ := herror ⟨_, hedits' ▸ List.mem_cons_self, by decide +kernel⟩
    rw [hedits', List.mem_singleton] at hp
    subst hp
    exact ⟨_, hcompared', houtline⟩
  · obtain ⟨-, hok, -⟩ := outline_forested hcompared₂ ⟨"w"⟩ shows
    obtain ⟨entries, hentries, hforested⟩ := hok (by decide +kernel)
    have hlines₂ : ((fresh.compare old₂ new₂).2.outline ⟨"w"⟩ shows).map
        (List.map fun e => (e.id, e.depth)) = .ok [(⟨"h"⟩, 0), (⟨"g"⟩, 0)] := by decide +kernel
    rw [hentries] at hlines₂
    exact ⟨_, entries, hcompared₂, hentries, hforested, Except.ok.inj hlines₂⟩

end Comparison

end GraphDelta
