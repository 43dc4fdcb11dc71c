/-
**A comparison that enters its changes into a ledger.**

A `Differ` answers requests out of a ledger.  The outline consults the index of the additions, so the
index has to survive all else that is asked for: the queueing, an attempt at comparing that fails
half-way, the sorting in place, and the omission of the top.

It does.  A differ gives the answers that a comparison gives, and its ledger is balanced at any time.

Main definitions:

* `Differ` — how far it has come, two catalogs, and a ledger;
* `Differ.comparison` — the comparison that a differ stands for;
* `Differ.Sound` — what holds of a differ at any time.

Main results:

* `Differ.Sound.compare`, `Differ.Sound.sort`, `Differ.Sound.omitRoot` — single requests;
* `Differ.Sound.answer`, `Differ.Sound.serve` — **a differ answers as its comparison does**, and stays
  sound;
* `Comparison.serve_balanced` — what any requests leave behind.
-/
import GraphDelta.Proofs.Requests
import GraphDelta.Proofs.Survey

set_option autoImplicit false

namespace GraphDelta

/-! ### Differs -/

/-- The objects that change, with the index consulted about what is added again. -/
def Ledger.marks (l : Ledger) : List (Ident × Outline.Status) :=
  let removed := (l.removals.map Node.id).filter fun id => !l.queued.contains id
  let added := l.additions.map Node.id
  let edited := (distinct (l.edits.map Property.owner)).filter fun id =>
    !removed.contains id && !added.contains id
  removed.map (·, .removed) ++ added.map (·, .added) ++ edited.map (·, .edited)

/-- How far a differ has come. -/
inductive Phase where
  | fresh
  | failed
  | done
deriving DecidableEq

/-- A comparison that enters its changes into a ledger. -/
structure Differ where
  phase : Phase
  old : Catalog
  new : Catalog
  ledger : Ledger

namespace Differ

/-- A differ that has been asked nothing. -/
def start : Differ := ⟨.fresh, .empty, .empty, .empty⟩

/-- The comparison that a differ stands for. -/
def comparison (d : Differ) : Comparison :=
  match d.phase with
  | .fresh => .fresh
  | .failed => .failed d.old d.new
  | .done => .done d.old d.new d.ledger.delta

/-- Compares two snapshots, if that has not been tried yet.  Where it fails, all that has been entered is
thrown away. -/
def compare (d : Differ) (old new : Snapshot) : Except Fault Unit × Differ :=
  match d.phase with
  | .fresh =>
    let o := Catalog.ofSnapshot old
    let n := Catalog.ofSnapshot new
    match Survey.enter o n d.ledger with
    | (.ok (), l) => (.ok (), ⟨.done, o, n, l⟩)
    | (.error e, _) => (.error e, ⟨.failed, o, n, .empty⟩)
  | _ => (.error .alreadyCompared, d)

/-- Puts the additions into an order in which they can be made. -/
def sort (d : Differ) : Except Fault Unit × Differ :=
  match d.comparison.order with
  | .error e => (.error e, d)
  | .ok ns => (.ok (), { d with ledger := { d.ledger with additions := ns } })

/-- Leaves out the first addition under `place`, and tells whether there is one. -/
def omitRoot (d : Differ) (place : Ident) (newRoot : Option Ident) : Except Fault Bool × Differ :=
  match d.phase with
  | .done =>
    let (found, l) := d.ledger.omitRoot place newRoot
    (.ok found, { d with ledger := l })
  | _ => (.error .notCompared, d)

/-- The outline below `root`, with the marks of the ledger. -/
def outline (d : Differ) (root : Ident) (shows : String → String → Bool) :
    Except Fault (List Outline.Entry) :=
  match d.phase with
  | .done => do
    let _ ← d.ledger.marks.mapM fun (id, _) => d.comparison.typeName id
    let s := Outline.Sketch.ofMarks d.comparison root d.ledger.marks
    return (s.rows d.comparison root).map (Outline.entry d.comparison shows s)
  | _ => .error .notCompared

end Differ

/-- A differ answers a request. -/
def Differ.answer (r : Request) (d : Differ) : Answer × Differ :=
  match r with
  | .compare old new =>
    let (result, d) := d.compare old new
    (.compared result, d)
  | .sort =>
    let (result, d) := d.sort
    (.sorted result, d)
  | .order => (.ordered d.comparison.order, d)
  | .omitRoot place newRoot =>
    let (result, d) := d.omitRoot place newRoot
    (.omitted result, d)
  | .outline root shows => (.outlined (d.outline root shows), d)
  | .replay mode sink s =>
    let (result, _, record) := d.comparison.replay mode sink.watched (s, [])
    (.replayed result record, d)

/-! ### Differs and comparisons -/

theorem Ledger.Indexed.contains_queued_eq {l : Ledger} (h : l.Indexed) (id : Ident) :
    l.queued.contains id = l.delta.adds id := by
  rw [Bool.eq_iff_iff, h.contains_queued, Delta.adds_eq_true_iff]
  rfl

theorem Ledger.Indexed.marks_eq {l : Ledger} (h : l.Indexed) : l.marks = Outline.marks l.delta := by
  simp only [Ledger.marks, Outline.marks, h.contains_queued_eq]
  rfl

namespace Differ

variable {d : Differ}

/-- The ledger is balanced, and it is empty as long as nothing has been compared. -/
structure Sound (d : Differ) : Prop where
  balanced : d.ledger.Balanced
  ledger_eq : d.phase ≠ .done → d.ledger = .empty

theorem sound_start : start.Sound := ⟨Ledger.balanced_empty, fun _ => rfl⟩

theorem Sound.delta_comparison (h : d.Sound) : d.comparison.delta = d.ledger.delta := by
  obtain ⟨phase, o, n, l⟩ := d
  cases phase with
  | fresh => exact congrArg Ledger.delta (h.ledger_eq (by simp)).symm
  | failed => exact congrArg Ledger.delta (h.ledger_eq (by simp)).symm
  | done => rfl

theorem Sound.compare (h : d.Sound) (old new : Snapshot) :
    d.comparison.compare old new = ((d.compare old new).1, (d.compare old new).2.comparison) ∧
      (d.compare old new).2.Sound := by
  obtain ⟨phase, o, n, l⟩ := d
  cases phase with
  | failed => exact ⟨rfl, h⟩
  | done => exact ⟨rfl, h⟩
  | fresh =>
      obtain rfl : l = .empty := h.ledger_eq (by simp)
      have ho := Catalog.filed_ofSnapshot old
      have hn := Catalog.filed_ofSnapshot new
      cases hd : Delta.between (.ofSnapshot old) (.ofSnapshot new) with
      | ok delta =>
          obtain ⟨l, hl, rfl, hbalanced⟩ := Survey.exists_enter_eq_ok ho hn hd
          simp only [Differ.compare, hl, comparison, Comparison.compare, hd]
          exact ⟨trivial, hbalanced, fun hno => absurd rfl hno⟩
      | error e =>
          obtain ⟨l, hl⟩ := Survey.exists_enter_eq_error hn hd .empty
          simp only [Differ.compare, hl, comparison, Comparison.compare, hd]
          exact ⟨trivial, Ledger.balanced_empty, fun _ => rfl⟩

theorem Sound.sort (h : d.Sound) : Comparison.answer .sort d.comparison =
    (.sorted d.sort.1, d.sort.2.comparison) ∧ d.sort.2.Sound := by
  obtain ⟨phase, o, n, l⟩ := d
  cases phase with
  | fresh => exact ⟨rfl, h⟩
  | failed => exact ⟨rfl, h⟩
  | done =>
      have horder : (Comparison.done o n l.delta).order = replayOrder l.additions n.nodes := rfl
      have hadditions : l.delta.additions = l.additions := rfl
      simp only [Comparison.answer, Differ.sort, comparison, horder, Comparison.sort_done, hadditions]
      cases hns : replayOrder l.additions n.nodes with
      | error e => exact ⟨rfl, h⟩
      | ok ns =>
          exact ⟨rfl, h.balanced.perm (perm_of_replayOrder_eq_ok hns), fun hno => absurd rfl hno⟩

theorem Sound.omitRoot (h : d.Sound) (place : Ident) (newRoot : Option Ident) :
    Comparison.answer (.omitRoot place newRoot) d.comparison =
      (.omitted (d.omitRoot place newRoot).1, (d.omitRoot place newRoot).2.comparison) ∧
        (d.omitRoot place newRoot).2.Sound := by
  obtain ⟨phase, o, n, l⟩ := d
  cases phase with
  | fresh => exact ⟨rfl, h⟩
  | failed => exact ⟨rfl, h⟩
  | done =>
      refine ⟨?_, h.balanced.omitRoot place newRoot, fun hno => absurd rfl hno⟩
      obtain ⟨hfound, hdelta⟩ := l.omitRoot_eq place newRoot
      simp only [Comparison.answer, Differ.omitRoot, comparison, Comparison.omitRoot, hfound, hdelta]
      cases l.delta.omitRoot? place newRoot <;> rfl

theorem Sound.outline (h : d.Sound) (root : Ident) (shows : String → String → Bool) :
    d.comparison.outline root shows = d.outline root shows := by
  obtain ⟨phase, o, n, l⟩ := d
  cases phase with
  | fresh => rfl
  | failed => rfl
  | done =>
      simp only [Differ.outline, Comparison.outline, h.balanced.toIndexed.marks_eq]
      rfl

/-- **A differ answers a request as its comparison does**, and stays sound. -/
theorem Sound.answer (h : d.Sound) (r : Request) :
    Comparison.answer r d.comparison = ((Differ.answer r d).1, (Differ.answer r d).2.comparison) ∧
      (Differ.answer r d).2.Sound := by
  cases r with
  | compare old new =>
      obtain ⟨hcompare, hsound⟩ := h.compare old new
      exact ⟨by rw [Comparison.answer, hcompare]; rfl, hsound⟩
  | sort => exact h.sort
  | order => exact ⟨rfl, h⟩
  | omitRoot place newRoot => exact h.omitRoot place newRoot
  | outline root shows =>
      exact ⟨congrArg (fun result => (Answer.outlined result, d.comparison)) (h.outline root shows), h⟩
  | replay mode sink s => exact ⟨rfl, h⟩

theorem Sound.serve (h : d.Sound) (rs : List Request) :
    serve Comparison.answer rs d.comparison =
        ((serve Differ.answer rs d).1, (serve Differ.answer rs d).2.comparison) ∧
      (serve Differ.answer rs d).2.Sound := by
  induction rs generalizing d with
  | nil => exact ⟨rfl, h⟩
  | cons r rs ih =>
      obtain ⟨hanswer, hsound⟩ := h.answer r
      obtain ⟨hrest, hsound'⟩ := ih hsound
      refine ⟨?_, hsound'⟩
      rw [GraphDelta.serve, hanswer]
      simp only [hrest]
      rfl

end Differ

/-! ### Any requests -/

namespace Comparison

/-- **What any requests leave behind.**  Whatever a comparison is asked for, with any arguments and
whether it fails or not, it takes one of the courses.  At most one attempt at comparing gets another
answer than that there has been one.  Unless one of them succeeds, there are no changes, and whatever
else is asked for is refused before a sink is called.  No object is added or removed twice, no key is
edited twice, and every edit tells a change.  A differ gives the same answers, and its index holds the
identifiers of the additions. -/
theorem serve_balanced (rs : List Request) :
    let answers := (serve answer rs fresh).1
    let c := (serve answer rs fresh).2
    let d := (serve Differ.answer rs .start).2
    (Course answers c ∧ answers.countP Answer.settles ≤ 1 ∧
      (.compared (.ok ()) ∉ answers →
        c.delta = .empty ∧ ∀ a ∈ answers, a.isCompared = true ∨ a.Refuses)) ∧
    ((c.delta.additions.map Node.id).Nodup ∧ (c.delta.removals.map Node.id).Nodup ∧
      (c.delta.edits.map Property.key).Nodup ∧ ∀ e ∈ c.delta.edits, e.isEdit = true) ∧
    (serve Differ.answer rs .start).1 = answers ∧ d.comparison = c ∧ d.ledger.delta = c.delta ∧
      ∀ id, d.ledger.queued.contains id = c.delta.adds id ∧
        (c.delta.adds id = true ↔ id ∈ c.delta.additions.map Node.id) := by
  intro answers c d
  obtain ⟨hserve, hsound⟩ := Differ.sound_start.serve rs
  have hanswers : (serve Differ.answer rs .start).1 = answers := (congrArg Prod.fst hserve).symm
  have hc : d.comparison = c := (congrArg Prod.snd hserve).symm
  have hdelta : d.ledger.delta = c.delta := by rw [← hc, hsound.delta_comparison]
  have hcourse : Course answers c := course_serve rs
  have hbalanced := hsound.balanced
  refine ⟨⟨hcourse, hcourse.countP_settles_le_one, hcourse.refuses_of_notMem⟩, ?_, hanswers, hc,
    hdelta, ?_⟩
  · rw [← hdelta]
    exact ⟨hbalanced.nodup, hbalanced.nodup_removals, hbalanced.nodup_edits, hbalanced.isEdit⟩
  · intro id
    rw [← hdelta]
    exact ⟨hbalanced.contains_queued_eq id, Delta.adds_eq_true_iff⟩

end Comparison

end GraphDelta
