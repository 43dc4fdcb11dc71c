/-
**Sorting the additions.**

A comparison lists its additions as they were found, and it can be asked to put them into an order in
which they can be made.  A replay needs such an order too, but it makes its own each time, so sorting is
for those who read the list.

The ranking behind both does not depend on the order in which the additions are listed, and what is sorted
by it stays as it is.  So sorting a second time changes nothing, and a replay cannot tell whether the
additions have been sorted.  This holds as long as the additions are records of the new snapshot, that is
until their top is left out.

Main definitions:

* `Request.isOmission` — a request to leave out the top;
* `Comparison.Intact` — the additions are records of the new snapshot.

Main results:

* `replayOrder_self` — an order of records of a map is its own order;
* `Comparison.replay_eq_of_order` — what a replay depends on;
* `Comparison.Intact.answer`, `Comparison.Intact.serve` — only an omission changes the records;
* `Comparison.sort_settles` — **sorting settles the list and does not show in a replay**.
-/
import GraphDelta.Proofs.Levels
import GraphDelta.Proofs.Requests
import GraphDelta.Sink.Transcript

set_option autoImplicit false

namespace GraphDelta

/-! ### Sorted batches -/

theorem Ranking.sort_sort (r : Ranking) (additions : List Node) :
    r.sort (r.sort additions) = r.sort additions :=
  stableSort_eq_self ((r.pairwise_sort additions).imp fun {a b} => (r.compare_isLE_iff a b).2)

theorem replayOrder_self {m : NodeMap} {additions l : List Node}
    (hadd : ∀ n ∈ additions, m[n.id]? = some n) (h : replayOrder additions m = .ok l) :
    replayOrder l m = .ok l := by
  have hperm := perm_of_replayOrder_eq_ok h
  obtain ⟨r, hr, rfl⟩ := exists_of_replayOrder_eq_ok h
  have hr' : Ranking.ofBatch (r.sort additions) m = .ok r :=
    Ranking.ofBatch_eq_ok_of_perm hadd hperm hr
  rw [replayOrder, hr']
  exact congrArg Except.ok (r.sort_sort additions)

/-- Whether the request is to leave out the top of the additions. -/
def Request.isOmission : Request → Bool
  | omitRoot _ _ => true
  | _ => false

namespace Comparison

variable {c c' : Comparison} {old new : Snapshot} {l : List Node} {e : Fault} {r : Request}
  {rs : List Request}

/-! ### Additions that are records -/

/-- The additions are records of the new snapshot. -/
def Intact (c : Comparison) : Prop := ∀ n ∈ c.delta.additions, c.new.nodes[n.id]? = some n

theorem intact_of_delta (h : c.delta = .empty) : c.Intact := by
  intro n hn
  rw [h] at hn
  exact absurd hn List.not_mem_nil

theorem intact_of_compare (h : fresh.compare old new = (.ok (), c)) : c.Intact := by
  obtain ⟨d, hd, rfl⟩ := compare_eq_ok_iff.1 h
  exact fun n hn => ((Delta.mem_additions (NodeMap.filed_ofList new.nodes) hd).1 hn).1

theorem Intact.sort (h : c.Intact) (hsort : c.sort = .ok c') : c'.Intact := by
  obtain ⟨o, n, d, l, rfl, rfl, hperm⟩ := exists_of_sort hsort
  exact fun a ha => h a (hperm.mem_iff.1 ha)

/-- Only leaving out the top changes the records. -/
theorem Intact.answer (h : c.Intact) (hr : r.isOmission = false) :
    (Comparison.answer r c).2.Intact := by
  cases r with
  | order | outline | replay => exact h
  | omitRoot => cases hr
  | sort =>
      rw [Comparison.answer]
      cases hsort : c.sort with
      | ok c' => exact h.sort hsort
      | error e => exact h
  | compare old new =>
      cases c with
      | failed | done => exact h
      | fresh =>
          change (fresh.compare old new).2.Intact
          rw [compare]
          cases hd : Delta.between (.ofSnapshot old) (.ofSnapshot new) with
          | ok d => exact intact_of_compare (compare_eq_ok_iff.2 ⟨d, hd, rfl⟩)
          | error e => exact intact_of_delta rfl

theorem Intact.serve (h : c.Intact) (hrs : ∀ r ∈ rs, r.isOmission = false) :
    (serve Comparison.answer rs c).2.Intact := by
  induction rs generalizing c with
  | nil => exact h
  | cons r rs ih =>
      rw [List.forall_mem_cons] at hrs
      exact ih (h.answer hrs.1) hrs.2

/-! ### Sorted comparisons -/

/-- Sorting puts the additions into their order, which is then the order of the result. -/
theorem Intact.exists_sort (h : c.Intact) (hl : c.order = .ok l) : ∃ c', c.sort = .ok c' ∧
    c'.delta = { c.delta with additions := l } ∧ c'.old = c.old ∧ c'.new = c.new ∧
    c'.order = .ok l ∧ c'.sort = .ok c' := by
  cases c with
  | fresh => cases hl
  | failed => cases hl
  | done o n d =>
      have hself : replayOrder l n.nodes = .ok l := replayOrder_self h hl
      have hsort : (done o n d).sort = .ok (done o n { d with additions := l }) := by
        rw [sort_done, show replayOrder d.additions n.nodes = .ok l from hl]
        rfl
      refine ⟨_, hsort, rfl, rfl, rfl, hself, ?_⟩
      rw [sort_done, hself]
      rfl

theorem sort_eq_error (h : c.order = .error e) : c.sort = .error e := by
  cases c with
  | fresh => exact congrArg Except.error (Except.error.inj h)
  | failed => exact congrArg Except.error (Except.error.inj h)
  | done o n d => rw [sort_done, show replayOrder d.additions n.nodes = .error e from h]; rfl

/-- A replay depends on the removals, on the edits, on the order of the additions and on their number. -/
theorem replay_eq_of_order {σ : Type} (horder : c'.order = c.order)
    (hremovals : c'.delta.removals = c.delta.removals) (hedits : c'.delta.edits = c.delta.edits)
    (hlength : c'.delta.additions.length = c.delta.additions.length) (mode : Replay.Mode)
    (sink : Sink σ) (s : σ) : c'.replay mode sink s = c.replay mode sink s := by
  have hcalls (l : List Node) : c'.delta.calls mode l = c.delta.calls mode l := by
    rw [Delta.calls, Delta.calls, hremovals, hedits]
  have htally : c'.delta.tally = c.delta.tally := by
    rw [Delta.tally, Delta.tally, hremovals, hedits, hlength]
  simp only [replay, horder, hcalls, htally]

/-- **Sorting settles the list and does not show in a replay.**  Whatever has been asked for, unless the
top was to be left out: if the additions have an order, sorting puts them into it and leaves all else
alone.  The sorted list is its own order, sorting it again changes nothing, and every replay makes the
calls that it would have made before, with the same answers.  If the additions have no order, sorting
fails for the same reason and leaves the comparison as it was. -/
theorem sort_settles (rs : List Request) (hrs : ∀ r ∈ rs, r.isOmission = false) :
    let c := (serve answer rs fresh).2
    (∀ l, answer .order c = (.ordered (.ok l), c) → ∃ c',
      answer .sort c = (.sorted (.ok ()), c') ∧ c'.delta.additions = l ∧
      c'.delta.removals = c.delta.removals ∧ c'.delta.edits = c.delta.edits ∧
      answer .order c' = (.ordered (.ok l), c') ∧ answer .sort c' = (.sorted (.ok ()), c') ∧
      ∀ {σ : Type} (mode : Replay.Mode) (sink : Sink σ) (s : σ),
        c'.replay mode sink.watched (s, []) = c.replay mode sink.watched (s, [])) ∧
    ∀ e, answer .order c = (.ordered (.error e), c) → answer .sort c = (.sorted (.error e), c) := by
  intro c
  have hc : c.Intact := (intact_of_delta rfl : fresh.Intact).serve hrs
  constructor
  · intro l hl
    have hl : c.order = .ok l := Answer.ordered.inj (Prod.mk.inj hl).1
    obtain ⟨c', hsort, hdelta, -, -, horder, hagain⟩ := hc.exists_sort hl
    have hperm : l.Perm c.delta.additions := perm_of_order_eq_ok hl
    refine ⟨c', by rw [answer, hsort], by rw [hdelta], by rw [hdelta], by rw [hdelta],
      by rw [answer, horder], by rw [answer, hagain], fun mode sink s => ?_⟩
    refine replay_eq_of_order (horder.trans hl.symm) (by rw [hdelta]) (by rw [hdelta]) ?_ mode _ _
    rw [hdelta]
    exact hperm.length_eq
  · intro e he
    have he : c.order = .error e := Answer.ordered.inj (Prod.mk.inj he).1
    rw [answer, sort_eq_error he]

/-- An object moves below another one that moves, and a third is fresh below them, so that a child is
listed in front of its parents.  In the second comparison two fresh objects are each other's parents. -/
theorem sort_settles_nested_moves :
    let old : Snapshot := ⟨[⟨none, "T", ⟨"w"⟩, 0⟩, ⟨some ⟨"w"⟩, "T", ⟨"t"⟩, 1⟩,
      ⟨some ⟨"w"⟩, "T", ⟨"c"⟩, 0⟩], []⟩
    let new : Snapshot := ⟨[⟨none, "T", ⟨"w"⟩, 0⟩, ⟨some ⟨"w"⟩, "T", ⟨"t"⟩, 0⟩,
      ⟨some ⟨"n"⟩, "T", ⟨"c"⟩, 0⟩, ⟨some ⟨"t"⟩, "T", ⟨"n"⟩, 0⟩],
      [.point ⟨"n"⟩ "p" .string (.ofText "1")]⟩
    let circle : Snapshot := ⟨[⟨some ⟨"y"⟩, "T", ⟨"x"⟩, 0⟩, ⟨some ⟨"x"⟩, "T", ⟨"y"⟩, 0⟩], []⟩
    let rs : List Request := [.order, .compare old new]
    let c := (serve answer rs fresh).2
    let c₂ := (serve answer [.compare ∅ circle] fresh).2
    (∀ r ∈ rs, r.isOmission = false) ∧ c.delta.additions.map Node.id = [⟨"c"⟩, ⟨"n"⟩, ⟨"t"⟩] ∧
    (∃ c', answer .sort c = (.sorted (.ok ()), c') ∧
      c'.delta.additions.map Node.id = [⟨"t"⟩, ⟨"n"⟩, ⟨"c"⟩] ∧
      answer .sort c' = (.sorted (.ok ()), c') ∧
      (c'.replay .plain Transcript.sink.watched ([], [])).2.2.length = 8 ∧
      c'.replay .plain Transcript.sink.watched ([], []) =
        c.replay .plain Transcript.sink.watched ([], [])) ∧
    answer .sort c₂ = (.sorted (.error (.cycle ⟨"x"⟩)), c₂) := by
  intro old new circle rs c c₂
  have hrs : ∀ r ∈ rs, r.isOmission = false := by decide
  have hcircle : ∀ r ∈ [Request.compare ∅ circle], r.isOmission = false := by decide
  obtain ⟨l, hl, hids⟩ : ∃ l, answer .order c = (.ordered (.ok l), c) ∧
      l.map Node.id = [⟨"t"⟩, ⟨"n"⟩, ⟨"c"⟩] := ⟨_, by rfl, by rfl⟩
  obtain ⟨c', hsort, rfl, -, -, -, hagain, hreplay⟩ := (sort_settles rs hrs).1 l hl
  refine ⟨hrs, by decide +kernel, ⟨c', hsort, hids, hagain, ?_, hreplay .plain _ _⟩, ?_⟩
  · rw [hreplay]
    decide +kernel
  · exact (sort_settles _ hcircle).2 _ (by rfl)

end Comparison

end GraphDelta
