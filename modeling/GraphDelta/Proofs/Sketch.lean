/-
**How a sketch is made.**

A sketch is made in two passes.  The first one marks the changed objects and links each of them to what
is above it, up to the root, to the top, or to the first object that is linked already.  The second one
goes up once more from everything that is linked, and marks what it meets as unchanged, up to the root
or to the first object that is marked already.

The snapshots may hold cycles of parents, so both ways up have a bound on the number of steps.  It is
never the bound that ends them: each step of the first one links an object of the map that was not
linked before, and each step of the second one marks an object of the two maps that was not marked.

Main definitions:

* `Outline.Changes` — how an object changes;
* `Outline.Sketch.LinksUp`, `Outline.Sketch.FillsUp` — the two ways up, without bounds;
* `Outline.Sketch.fillFrom` — one step of the second pass.

Main results:

* `Outline.mem_marks` — **the marks are the changed objects**, by how they change;
* `Outline.Changes.eq` — no object changes in two ways;
* `Outline.Sketch.linksUp_linkUp`, `Outline.Sketch.fillsUp_fillUp` — **no bound ends a way up**;
* `Outline.Sketch.link_cases`, `Outline.Sketch.fillFrom_cases` — the steps of the two passes;
* `Outline.Sketch.root_notMem_links` — the root is linked to nothing.
-/
import GraphDelta.Outline
import GraphDelta.Proofs.Additions
import Mathlib.Data.List.Count

set_option autoImplicit false

namespace GraphDelta.Outline

variable {c : Comparison} {d : Delta} {m : NodeMap} {s t : Sketch} {root id x y p : Ident}
  {st : Status} {fuel : Nat}

/-! ### How objects change -/

/-- How an object changes: it is added; or it is removed, and not added again; or it is neither, and
has edits. -/
def Changes (d : Delta) (x : Ident) : Status → Prop
  | .added => d.adds x = true
  | .removed => d.adds x = false ∧ ∃ r ∈ d.removals, r.id = x
  | .edited => d.adds x = false ∧ (∀ r ∈ d.removals, r.id ≠ x) ∧ ∃ p ∈ d.edits, p.owner = x
  | .same => False

theorem Changes.eq {st' : Status} (h : Changes d x st) (h' : Changes d x st') : st = st' := by
  have hadd (hadds : d.adds x = true) (hno : d.adds x = false) : False :=
    Bool.false_ne_true (hno.symm.trans hadds)
  have hrem (hkeep : ∀ r ∈ d.removals, r.id ≠ x) (hr : ∃ r ∈ d.removals, r.id = x) : False := by
    obtain ⟨r, hr, hid⟩ := hr
    exact hkeep r hr hid
  cases st with
  | same => exact h.elim
  | added =>
      cases st' with
      | same => exact h'.elim
      | added => rfl
      | removed => exact (hadd h h'.1).elim
      | edited => exact (hadd h h'.1).elim
  | removed =>
      cases st' with
      | same => exact h'.elim
      | added => exact (hadd h' h.1).elim
      | removed => rfl
      | edited => exact (hrem h'.2.1 h.2).elim
  | edited =>
      cases st' with
      | same => exact h'.elim
      | added => exact (hadd h' h.1).elim
      | removed => exact (hrem h.2.1 h'.2).elim
      | edited => rfl

theorem mem_map_mark {l : List Ident} {st' : Status} :
    (x, st) ∈ l.map (·, st') ↔ x ∈ l ∧ st = st' := by
  rw [List.mem_map]
  constructor
  · rintro ⟨a, ha, heq⟩
    cases heq
    exact ⟨ha, rfl⟩
  · rintro ⟨hx, rfl⟩
    exact ⟨x, hx, rfl⟩

/-- **Every changed object is marked**, by how it changes. -/
theorem mem_marks : (x, st) ∈ marks d ↔ Changes d x st := by
  have hadded : x ∈ d.additions.map Node.id ↔ d.adds x = true := Delta.adds_eq_true_iff.symm
  have hremoved : x ∈ (d.removals.map Node.id).filter (fun id => !d.adds id) ↔
      d.adds x = false ∧ ∃ r ∈ d.removals, r.id = x := by
    rw [List.mem_filter, List.mem_map, Bool.not_eq_true', and_comm]
  have hedited : (!((d.removals.map Node.id).filter fun id => !d.adds id).contains x &&
        !(d.additions.map Node.id).contains x) = true ↔
      d.adds x = false ∧ ∀ r ∈ d.removals, r.id ≠ x := by
    rw [Bool.and_eq_true, Bool.not_eq_true', Bool.not_eq_true', ← Bool.not_eq_true,
      ← Bool.not_eq_true, List.contains_iff_mem, List.contains_iff_mem, hremoved, hadded,
      Bool.not_eq_true]
    constructor
    · rintro ⟨hno, hadd⟩
      exact ⟨hadd, fun r hr hid => hno ⟨hadd, r, hr, hid⟩⟩
    · rintro ⟨hadd, hno⟩
      exact ⟨fun ⟨_, r, hr, hid⟩ => hno r hr hid, hadd⟩
  rw [marks, List.mem_append, List.mem_append, mem_map_mark, mem_map_mark, mem_map_mark, hremoved,
    hadded, List.mem_filter, mem_distinct, List.mem_map, hedited]
  cases st with
  | same => simp [Changes]
  | removed => simp [Changes]
  | added => simp [Changes]
  | edited =>
      simp only [Changes, reduceCtorEq, and_false, or_self, false_or, and_true]
      rw [and_comm, and_assoc]

/-! ### Room for the steps -/

/-- What holds of an item, and of nothing that another test holds of, makes the other test hold less
often. -/
theorem countP_lt_countP {α : Type} {p q : α → Bool} {l : List α} {a : α}
    (hpq : ∀ b, p b = true → q b = true) (ha : a ∈ l) (hq : q a = true) (hp : p a = false) :
    l.countP p < l.countP q := by
  have hcount : l.countP p = (l.filter q).countP p := by
    rw [List.countP_filter]
    refine List.countP_congr fun b _ => ?_
    rw [Bool.and_eq_true]
    exact ⟨fun hb => ⟨hb, hpq b hb⟩, And.left⟩
  rw [hcount, List.countP_eq_length_filter (p := q), List.countP_lt_length_iff]
  exact ⟨a, List.mem_filter.2 ⟨ha, hq⟩, hp⟩

theorem mem_insert_iff {α : Type} {m : Std.ExtTreeMap Ident α} {a : α} :
    x ∈ m.insert y a ↔ y = x ∨ x ∈ m := by
  rw [Std.ExtTreeMap.mem_insert, Std.LawfulEqOrd.compare_eq_iff_eq]

theorem exists_getElem?_of_mem {α : Type} {m : Std.ExtTreeMap Ident α} (hx : x ∈ m) :
    ∃ a, m[x]? = some a :=
  Option.isSome_iff_exists.1 (Std.ExtTreeMap.mem_iff_isSome_getElem?.1 hx)

/-- Filing a key that was not there leaves fewer keys to be filed. -/
theorem countP_insert_lt {α : Type} {m : Std.ExtTreeMap Ident α} {a : α} {keys : List Ident}
    (hmem : x ∈ keys) (hx : x ∉ m) :
    keys.countP (fun b => decide (b ∉ m.insert x a)) < keys.countP (fun b => decide (b ∉ m)) := by
  refine countP_lt_countP ?_ hmem (decide_eq_true hx) ?_
  · intro b hb
    exact decide_eq_true fun h => of_decide_eq_true hb (mem_insert_iff.2 (.inr h))
  · exact decide_eq_false fun h => h (mem_insert_iff.2 (.inl rfl))

namespace Sketch

/-! ### Linking what is above an object -/

/-- The way up of the first pass, without a bound on the steps. -/
inductive LinksUp (m : NodeMap) (root : Ident) : Ident → Sketch → Sketch → Prop
  | stop {id : Ident} {s : Sketch} : id = root ∨ id ∈ s.links → LinksUp m root id s s
  | top {id : Ident} {s : Sketch} : ¬ (id = root ∨ id ∈ s.links) → m.parent? id = none →
      LinksUp m root id s s
  | step {id p : Ident} {s t : Sketch} : ¬ (id = root ∨ id ∈ s.links) → m.parent? id = some p →
      LinksUp m root p { s with links := s.links.insert id p } t → LinksUp m root id s t

theorem linksUp_of_lt (h : m.keys.countP (fun b => decide (b ∉ s.links)) < fuel) :
    LinksUp m root id s (linkUp m root fuel id s) := by
  induction fuel generalizing id s with
  | zero => exact absurd h (Nat.not_lt_zero _)
  | succ fuel ih =>
      rw [linkUp]
      split
      · exact .stop ‹_›
      · rename_i hgo
        split
        · exact .top hgo ‹_›
        · rename_i p hp
          have hlt := countP_insert_lt (a := p) (NodeMap.mem_keys_of_parent? id p hp)
            fun h => hgo (.inr h)
          exact .step hgo hp (ih (Nat.lt_of_lt_of_le hlt (Nat.le_of_lt_succ h)))

/-- **The bound does not end the way up of the first pass.** -/
theorem linksUp_linkUp (m : NodeMap) (root id : Ident) (s : Sketch) :
    LinksUp m root id s (linkUp m root (m.size + 1) id s) := by
  refine linksUp_of_lt (Nat.lt_succ_of_le ?_)
  rw [← Std.ExtTreeMap.length_keys]
  exact List.countP_le_length

theorem LinksUp.root_notMem (h : LinksUp m root id s t) (hs : root ∉ s.links) : root ∉ t.links := by
  induction h with
  | stop => exact hs
  | top => exact hs
  | step hgo _ _ ih => exact ih fun h => (mem_insert_iff.1 h).elim (fun heq => hgo (.inl heq)) hs

theorem LinksUp.marks_eq (h : LinksUp m root id s t) : t.marks = s.marks := by
  induction h with
  | stop => rfl
  | top => rfl
  | step _ _ _ ih => exact ih

/-- A changed object is marked; unless it is the root or has no parent, it is linked, and then what is
above it. -/
theorem link_cases (c : Comparison) (root : Ident) (s : Sketch) (id : Ident) (st : Status) :
    ((id = root ∨ (home c id st).parent? id = none) ∧
      link c root s (id, st) = { s with marks := s.marks.insert id st }) ∨
    ∃ p, id ≠ root ∧ (home c id st).parent? id = some p ∧ LinksUp (home c id st) root p
      ⟨s.marks.insert id st, s.links.insert id p⟩ (link c root s (id, st)) := by
  rw [link]
  dsimp only
  split
  · exact .inl ⟨.inl ‹_›, rfl⟩
  · rename_i hid
    split
    · exact .inl ⟨.inr ‹_›, rfl⟩
    · exact .inr ⟨_, hid, ‹_›, linksUp_linkUp _ _ _ _⟩

theorem root_notMem_link (hs : root ∉ s.links) (mark : Ident × Status) :
    root ∉ (link c root s mark).links := by
  rcases link_cases c root s mark.1 mark.2 with ⟨-, heq⟩ | ⟨p, hid, -, hup⟩
  · rw [heq]
    exact hs
  · exact hup.root_notMem fun h => (mem_insert_iff.1 h).elim hid hs

/-! ### Filling in what does not change -/

/-- The way up of the second pass, without a bound on the steps. -/
inductive FillsUp (c : Comparison) (root : Ident) : Ident → Sketch → Sketch → Prop
  | stop {id : Ident} {s : Sketch} : id = root ∨ id ∈ s.marks → FillsUp c root id s s
  | unknown {id : Ident} {s : Sketch} : ¬ (id = root ∨ id ∈ s.marks) → c.node? id = none →
      FillsUp c root id s s
  | top {id : Ident} {s : Sketch} {n : Node} : ¬ (id = root ∨ id ∈ s.marks) → c.node? id = some n →
      n.parent = none → FillsUp c root id s { s with marks := s.marks.insert id .same }
  | step {id p : Ident} {s t : Sketch} {n : Node} : ¬ (id = root ∨ id ∈ s.marks) →
      c.node? id = some n → n.parent = some p →
      FillsUp c root p ⟨s.marks.insert id .same, s.links.insert id p⟩ t → FillsUp c root id s t

theorem mem_of_node? {n : Node} (h : c.node? id = some n) :
    c.old.nodes[id]? = some n ∨ id ∉ c.old.nodes ∧ c.new.nodes[id]? = some n := by
  rcases Option.or_eq_some_iff.1 h with h | ⟨hold, hnew⟩
  · exact .inl h
  · rw [Std.ExtTreeMap.mem_iff_isSome_getElem?, hold]
    exact .inr ⟨Bool.false_ne_true, hnew⟩

theorem fillsUp_of_lt
    (h : (c.old.nodes.keys ++ c.new.nodes.keys).countP (fun b => decide (b ∉ s.marks)) < fuel) :
    FillsUp c root id s (fillUp c root fuel id s) := by
  induction fuel generalizing id s with
  | zero => exact absurd h (Nat.not_lt_zero _)
  | succ fuel ih =>
      rw [fillUp]
      split
      · exact .stop ‹_›
      · rename_i hgo
        split
        · exact .unknown hgo ‹_›
        · rename_i n hn
          dsimp only
          split
          · exact .top hgo hn ‹_›
          · rename_i p hp
            have hmem : id ∈ c.old.nodes.keys ++ c.new.nodes.keys := by
              rw [List.mem_append, Std.ExtTreeMap.mem_keys, Std.ExtTreeMap.mem_keys]
              exact (mem_of_node? hn).imp NodeMap.mem_of_getElem?_eq_some
                fun hnew => NodeMap.mem_of_getElem?_eq_some hnew.2
            have hlt := countP_insert_lt (a := Status.same) hmem fun h => hgo (.inr h)
            exact .step hgo hn hp (ih (Nat.lt_of_lt_of_le hlt (Nat.le_of_lt_succ h)))

/-- **The bound does not end the way up of the second pass.** -/
theorem fillsUp_fillUp (c : Comparison) (root id : Ident) (s : Sketch) :
    FillsUp c root id s (fillUp c root (c.old.nodes.size + c.new.nodes.size + 1) id s) := by
  refine fillsUp_of_lt (Nat.lt_succ_of_le ?_)
  rw [← Std.ExtTreeMap.length_keys, ← Std.ExtTreeMap.length_keys, ← List.length_append]
  exact List.countP_le_length

theorem FillsUp.root_notMem (h : FillsUp c root id s t) (hs : root ∉ s.links) : root ∉ t.links := by
  induction h with
  | stop => exact hs
  | unknown => exact hs
  | top => exact hs
  | step hgo _ _ _ ih => exact ih fun h => (mem_insert_iff.1 h).elim (fun heq => hgo (.inl heq)) hs

/-- One way up of the second pass, from what an object is linked to. -/
def fillFrom (c : Comparison) (root : Ident) (s : Sketch) (id : Ident) : Sketch :=
  match s.links[id]? with
  | none => s
  | some p => fillUp c root (c.old.nodes.size + c.new.nodes.size + 1) p s

/-- The second pass goes up from everything that the first one has linked. -/
theorem fill_eq (c : Comparison) (root : Ident) (s : Sketch) :
    fill c root s = s.links.keys.foldl (fillFrom c root) s := rfl

theorem fillFrom_cases (c : Comparison) (root : Ident) (s : Sketch) (id : Ident) :
    (s.links[id]? = none ∧ fillFrom c root s id = s) ∨
      ∃ p, s.links[id]? = some p ∧ FillsUp c root p s (fillFrom c root s id) := by
  rw [fillFrom]
  cases hp : s.links[id]? with
  | none => exact .inl ⟨rfl, rfl⟩
  | some p => exact .inr ⟨p, rfl, fillsUp_fillUp c root p s⟩

theorem root_notMem_links (c : Comparison) (root : Ident) (marks : List (Ident × Status)) :
    root ∉ (ofMarks c root marks).links := by
  rw [ofMarks, fill_eq]
  refine List.foldlRecOn (motive := fun s : Sketch => root ∉ s.links) _ _ ?_ ?_
  · refine List.foldlRecOn (motive := fun s : Sketch => root ∉ s.links) _ _ ?_ ?_
    · exact Std.ExtTreeMap.not_mem_empty
    · exact fun s hs mark _ => root_notMem_link hs mark
  · intro s hs id _
    rcases fillFrom_cases c root s id with ⟨-, heq⟩ | ⟨p, -, hup⟩
    · rw [heq]
      exact hs
    · exact hup.root_notMem hs

end Sketch

end GraphDelta.Outline
