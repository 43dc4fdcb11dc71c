/-
**Requests to a comparison.**

A comparison is asked for six things: to compare two snapshots, to sort its additions, for an order of
them, to leave out their top, for an outline, and to replay itself.  These requests may come in any order,
any number of times and with any arguments, and some of them fail.

Whatever the requests are, they take one of three courses.  If it is never asked to compare, a comparison
refuses everything.  The first attempt at comparing settles whether there is something to work on, and it
is the last one.  If it fails, all else goes on being refused; if it succeeds, nothing else is refused any
more, although it may fail for reasons of its own.

Main definitions:

* `Request`, `Answer` — what is asked for, and what is answered;
* `Comparison.answer`, `serve` — requests are answered, one after the other;
* `Answer.settles`, `Answer.Refuses` — what an answer says about comparing;
* `Comparison.Course` — the courses that requests can take.

Main results:

* `Delta.exists_cycle_of_between`, `exists_cycle_of_replayOrder` — only cycles are in the way;
* `Comparison.answer_fresh`, `Comparison.answer_failed`, `Comparison.Derived.answer` — single requests;
* `Comparison.course_serve` — **any requests take one of the courses**.
-/
import GraphDelta.Proofs.Protocol
import GraphDelta.Proofs.Shape

set_option autoImplicit false

namespace GraphDelta

/-! ### Requests and answers -/

/-- What a comparison can be asked for. -/
inductive Request where
  | compare (old new : Snapshot)
  | sort
  | order
  | omitRoot (place : Ident) (newRoot : Option Ident)
  | outline (root : Ident) (shows : String → String → Bool)
  | replay {σ : Type} (mode : Replay.Mode) (sink : Sink σ) (s : σ)

/-- What is answered.  The answer to a replay tells the calls to the sink as well. -/
inductive Answer where
  | compared (result : Except Fault Unit)
  | sorted (result : Except Fault Unit)
  | ordered (result : Except Fault (List Node))
  | omitted (result : Except Fault Bool)
  | outlined (result : Except Fault (List Outline.Entry))
  | replayed (result : Except Fault Replay.Tally) (record : Sink.Record)

namespace Answer

/-- Whether it was asked to compare. -/
def isCompared : Answer → Bool
  | compared _ => true
  | _ => false

/-- Snapshots were compared, or it was found out that they cannot be. -/
def settles : Answer → Bool
  | compared (.error .alreadyCompared) => false
  | compared _ => true
  | _ => false

/-- Nothing was done, as nothing has been compared; and no sink was called. -/
def Refuses : Answer → Prop
  | compared _ => False
  | sorted result => result = .error .notCompared
  | ordered result => result = .error .notCompared
  | omitted result => result = .error .notCompared
  | outlined result => result = .error .notCompared
  | replayed result record => result = .error .notCompared ∧ record = []

end Answer

/-- A comparison answers a request. -/
def Comparison.answer (r : Request) (c : Comparison) : Answer × Comparison :=
  match r with
  | .compare old new =>
    let (result, c) := c.compare old new
    (.compared result, c)
  | .sort =>
    match c.sort with
    | .ok c => (.sorted (.ok ()), c)
    | .error e => (.sorted (.error e), c)
  | .order => (.ordered c.order, c)
  | .omitRoot place newRoot =>
    match c.omitRoot place newRoot with
    | .ok (found, c) => (.omitted (.ok found), c)
    | .error e => (.omitted (.error e), c)
  | .outline root shows => (.outlined (c.outline root shows), c)
  | .replay mode sink s =>
    let (result, _, record) := c.replay mode sink.watched (s, [])
    (.replayed result record, c)

/-- Requests are answered one after the other. -/
def serve {S : Type} (answer : Request → S → Answer × S) : List Request → S → List Answer × S
  | [], s => ([], s)
  | r :: rs, s =>
    let (a, s) := answer r s
    let (as, s) := serve answer rs s
    (a :: as, s)

/-! ### What goes wrong -/

section Faults

variable {o c : Catalog} {old new m : NodeMap} {n : Node} {ns : List Node} {e : Fault}

theorem Delta.exists_cycle_of_topmost? (h : topmost? old new n = .error e) : ∃ z, e = .cycle z := by
  rw [topmost?] at h
  split at h
  · cases h
  · split at h
    all_goals cases h
    exact ⟨_, rfl⟩

theorem Delta.exists_cycle_of_between (h : between o c = .error e) : ∃ z, e = .cycle z := by
  rcases between_eq_error_iff.1 h with hf | ⟨f, -, hl⟩
  · by_cases hm : ∃ id, o.nodes.Moved c.nodes id
    · obtain ⟨id, hid⟩ := hm
      rw [newForest_of_moved hid] at hf
      obtain ⟨z, hz, -⟩ := Forest.circular_of_ofMap_eq_error hf
      exact ⟨z, hz⟩
    · rw [newForest_of_not_moved hm] at hf
      cases hf
  · obtain ⟨n, -, hn⟩ := exists_of_mapM_eq_error hl
    exact exists_cycle_of_topmost? hn

theorem Ranking.exists_cycle_of_settle {batch : List Ident} {r : Ranking}
    (h : settle batch m r n = .error e) : ∃ z, e = .cycle z := by
  rw [settle_eq] at h
  split at h
  all_goals cases h
  exact ⟨_, rfl⟩

theorem exists_cycle_of_replayOrder (h : replayOrder ns m = .error e) : ∃ z, e = .cycle z := by
  rw [replayOrder, Ranking.ofBatch] at h
  cases hr : ns.foldlM (Ranking.settle (ns.map Node.id) m) ⟨∅⟩ with
  | ok r => rw [hr] at h; cases h
  | error e' =>
      rw [hr] at h
      cases h
      obtain ⟨n, -, r, hn⟩ := exists_of_foldlM_eq_error hr
      exact Ranking.exists_cycle_of_settle hn

end Faults

/-! ### Single answers -/

namespace Comparison

variable {c : Comparison} {old new : Snapshot}

theorem sort_done (o n : Catalog) (d : Delta) : (done o n d).sort =
    (replayOrder d.additions n.nodes).map fun ns => done o n { d with additions := ns } := rfl

theorem order_ne_notCompared (hc : c.isDone = true) : c.order ≠ .error .notCompared := by
  intro h
  rw [order_eq, hc] at h
  obtain ⟨z, hz⟩ := exists_cycle_of_replayOrder h
  cases hz

theorem outline_ne_notCompared (hc : c.isDone = true) (root : Ident)
    (shows : String → String → Bool) : c.outline root shows ≠ .error .notCompared := by
  cases c with
  | fresh => cases hc
  | failed => cases hc
  | done o n d =>
      intro h
      by_cases hknown : ∀ x st, Outline.Changes d x st → (done o n d).IsKnown x
      · rw [outline_eq_ok rfl hknown] at h
        cases h
      · push Not at hknown
        obtain ⟨x, st, -, -, herror⟩ := outline_eq_error (c := done o n d) rfl hknown root shows
        rw [herror] at h
        cases h

theorem replay_ne_notCompared {σ : Type} (hc : c.isDone = true) (mode : Replay.Mode) (sink : Sink σ)
    (s : σ) : (c.replay mode sink s).1 ≠ .error .notCompared := by
  intro h
  cases hl : c.order with
  | error e =>
      rw [replay, hl] at h
      exact order_ne_notCompared hc (hl.trans (congrArg Except.error (Except.error.inj h)))
  | ok l =>
      obtain ⟨answer, s', record, hreplay, -, hcourse⟩ : ∃ answer s' record,
          c.replay mode sink s = (answer, s') ∧
          c.replay mode sink.watched (s, []) = (answer, s', record) ∧
          Replay.Course c.delta mode l answer record := course_of_order hl sink s
      rw [hreplay] at h
      cases hcourse <;> cases h

/-- A comparison that was worked on refuses nothing but to compare again, and can be worked on further. -/
theorem Derived.answer (h : c.Derived old new) (r : Request) :
    ((Comparison.answer r c).1 = .compared (.error .alreadyCompared) ∨
      (Comparison.answer r c).1.isCompared = false ∧ ¬ (Comparison.answer r c).1.Refuses) ∧
    (Comparison.answer r c).2.Derived old new := by
  obtain ⟨d, rfl⟩ := h.exists_eq_done
  have horder : (done (.ofSnapshot old) (.ofSnapshot new) d).order ≠ .error .notCompared :=
    order_ne_notCompared rfl
  cases r with
  | compare => exact ⟨.inl rfl, h⟩
  | order => exact ⟨.inr ⟨rfl, horder⟩, h⟩
  | outline root shows => exact ⟨.inr ⟨rfl, outline_ne_notCompared rfl root shows⟩, h⟩
  | replay mode sink s =>
      exact ⟨.inr ⟨rfl, fun hr => replay_ne_notCompared rfl mode sink.watched (s, []) hr.1⟩, h⟩
  | sort =>
      have hsort := sort_done (.ofSnapshot old) (.ofSnapshot new) d
      cases hl : replayOrder d.additions (Catalog.ofSnapshot new).nodes with
      | ok l =>
          rw [hl] at hsort
          rw [Comparison.answer, hsort]
          exact ⟨.inr ⟨rfl, fun hr => by cases hr⟩, h.sorted hsort⟩
      | error e =>
          rw [hl] at hsort
          rw [Comparison.answer, hsort]
          exact ⟨.inr ⟨rfl, fun hr => horder (hl.trans (congrArg _ (Except.error.inj hr)))⟩, h⟩
  | omitRoot place newRoot =>
      obtain ⟨found, c', homit⟩ : ∃ found c',
          (done (.ofSnapshot old) (.ofSnapshot new) d).omitRoot place newRoot = .ok (found, c') := by
        rw [omitRoot]
        cases d.omitRoot? place newRoot with
        | some d' => exact ⟨_, _, rfl⟩
        | none => exact ⟨_, _, rfl⟩
      rw [Comparison.answer, homit]
      exact ⟨.inr ⟨rfl, fun hr => by cases hr⟩, h.freed homit⟩

/-- Where comparing failed, it is not tried again, and all else is refused. -/
theorem answer_failed (o n : Catalog) (r : Request) :
    ((answer r (failed o n)).1 = .compared (.error .alreadyCompared) ∨
      (answer r (failed o n)).1.Refuses) ∧ (answer r (failed o n)).2 = failed o n := by
  cases r with
  | compare => exact ⟨.inl rfl, rfl⟩
  | sort | order | omitRoot | outline => exact ⟨.inr rfl, rfl⟩
  | replay => exact ⟨.inr ⟨rfl, rfl⟩, rfl⟩

/-- Before anything is compared, all else is refused. -/
theorem answer_fresh (r : Request) :
    ((answer r fresh).1.Refuses ∧ (answer r fresh).2 = fresh) ∨
    (∃ z o n, answer r fresh = (.compared (.error (.cycle z)), failed o n)) ∨
    ∃ (old new : Snapshot) (c : Comparison), answer r fresh = (.compared (.ok ()), c) ∧
      c.Derived old new := by
  cases r with
  | sort | order | omitRoot | outline => exact .inl ⟨rfl, rfl⟩
  | replay => exact .inl ⟨⟨rfl, rfl⟩, rfl⟩
  | compare old new =>
      cases hd : Delta.between (.ofSnapshot old) (.ofSnapshot new) with
      | ok d =>
          have hc : fresh.compare old new = (.ok (), done (.ofSnapshot old) (.ofSnapshot new) d) :=
            compare_eq_ok_iff.2 ⟨d, hd, rfl⟩
          exact .inr (.inr ⟨old, new, _, by rw [answer, hc], .compared hc⟩)
      | error e =>
          obtain ⟨z, rfl⟩ := Delta.exists_cycle_of_between hd
          exact .inr (.inl ⟨z, .ofSnapshot old, .ofSnapshot new, by rw [answer, compare, hd]⟩)

/-! ### All answers -/

/-- The courses that any requests can take: what is answered, and what they leave behind. -/
inductive Course : List Answer → Comparison → Prop
  | idle {as : List Answer} : (∀ a ∈ as, a.Refuses) → Course as fresh
  | failed {before after : List Answer} {z : Ident} {o n : Catalog} : (∀ a ∈ before, a.Refuses) →
      (∀ a ∈ after, a = .compared (.error .alreadyCompared) ∨ a.Refuses) →
        Course (before ++ .compared (.error (.cycle z)) :: after) (failed o n)
  | done {before after : List Answer} {old new : Snapshot} {c : Comparison} :
      (∀ a ∈ before, a.Refuses) → (∀ a ∈ after, a = .compared (.error .alreadyCompared) ∨
        a.isCompared = false ∧ ¬ a.Refuses) → c.Derived old new →
          Course (before ++ .compared (.ok ()) :: after) c

theorem Course.cons {as : List Answer} {a : Answer} (h : Course as c) (ha : a.Refuses) :
    Course (a :: as) c := by
  cases h with
  | idle has => exact .idle (List.forall_mem_cons.2 ⟨ha, has⟩)
  | failed hbefore hafter => exact .failed (List.forall_mem_cons.2 ⟨ha, hbefore⟩) hafter
  | done hbefore hafter hc => exact .done (List.forall_mem_cons.2 ⟨ha, hbefore⟩) hafter hc

theorem serve_failed (o n : Catalog) (rs : List Request) :
    (∀ a ∈ (serve answer rs (failed o n)).1,
      a = .compared (.error .alreadyCompared) ∨ a.Refuses) ∧
    (serve answer rs (failed o n)).2 = failed o n := by
  induction rs with
  | nil => exact ⟨List.forall_mem_nil _, rfl⟩
  | cons r rs ih =>
      obtain ⟨ha, hc⟩ := answer_failed o n r
      simp only [serve, hc]
      exact ⟨List.forall_mem_cons.2 ⟨ha, ih.1⟩, ih.2⟩

theorem Derived.serve (h : c.Derived old new) (rs : List Request) :
    (∀ a ∈ (serve Comparison.answer rs c).1, a = .compared (.error .alreadyCompared) ∨
      a.isCompared = false ∧ ¬ a.Refuses) ∧
    (serve Comparison.answer rs c).2.Derived old new := by
  induction rs generalizing c with
  | nil => exact ⟨List.forall_mem_nil _, h⟩
  | cons r rs ih =>
      obtain ⟨ha, hc⟩ := h.answer r
      obtain ⟨has, hc'⟩ := ih hc
      exact ⟨List.forall_mem_cons.2 ⟨ha, has⟩, hc'⟩

theorem course_serve (rs : List Request) :
    Course (serve answer rs fresh).1 (serve answer rs fresh).2 := by
  induction rs with
  | nil => exact .idle (List.forall_mem_nil Answer.Refuses)
  | cons r rs ih =>
      rcases answer_fresh r with ⟨ha, hc⟩ | ⟨z, o, n, ha⟩ | ⟨old, new, c, ha, hc⟩
      · simp only [serve, hc]
        exact ih.cons ha
      · obtain ⟨hafter, hfinal⟩ := serve_failed o n rs
        simp only [serve, ha, hfinal]
        exact .failed (List.forall_mem_nil Answer.Refuses) hafter
      · obtain ⟨hafter, hfinal⟩ := hc.serve rs
        simp only [serve, ha]
        exact .done (List.forall_mem_nil Answer.Refuses) hafter hfinal

theorem settles_of_refuses {a : Answer} (ha : a.Refuses) : a.settles = false := by
  cases a with
  | compared => exact ha.elim
  | sorted | ordered | omitted | outlined | replayed => rfl

theorem settles_of_not_isCompared {a : Answer} (ha : a.isCompared = false) : a.settles = false := by
  cases a with
  | compared => cases ha
  | sorted | ordered | omitted | outlined | replayed => rfl

theorem countP_settles_le {before after : List Answer} (a : Answer)
    (hbefore : ∀ b ∈ before, b.Refuses) (hafter : ∀ b ∈ after, b.settles = false) :
    (before ++ a :: after).countP Answer.settles ≤ 1 := by
  have hzero {as : List Answer} (has : ∀ b ∈ as, b.settles = false) :
      as.countP Answer.settles = 0 :=
    List.countP_eq_zero.2 fun b hb => Bool.eq_false_iff.1 (has b hb)
  rw [List.countP_append, List.countP_cons, hzero fun b hb => settles_of_refuses (hbefore b hb),
    hzero hafter]
  split <;> omega

theorem Course.countP_settles_le_one {as : List Answer} (h : Course as c) :
    as.countP Answer.settles ≤ 1 := by
  cases h with
  | idle has =>
      rw [List.countP_eq_zero.2 fun a ha => Bool.eq_false_iff.1 (settles_of_refuses (has a ha))]
      exact Nat.zero_le 1
  | failed hbefore hafter =>
      refine countP_settles_le _ hbefore fun a ha => ?_
      rcases hafter a ha with rfl | ha
      · rfl
      · exact settles_of_refuses ha
  | done hbefore hafter =>
      refine countP_settles_le _ hbefore fun a ha => ?_
      rcases hafter a ha with rfl | ⟨ha, -⟩
      · rfl
      · exact settles_of_not_isCompared ha

/-- Unless comparing succeeds, there are no changes, and all else is refused. -/
theorem Course.refuses_of_notMem {as : List Answer} (h : Course as c)
    (hno : .compared (.ok ()) ∉ as) :
    c.delta = .empty ∧ ∀ a ∈ as, a.isCompared = true ∨ a.Refuses := by
  cases h with
  | idle has => exact ⟨rfl, fun a ha => .inr (has a ha)⟩
  | failed hbefore hafter =>
      refine ⟨rfl, fun a ha => ?_⟩
      rcases List.mem_append.1 ha with ha | ha
      · exact .inr (hbefore a ha)
      · rcases List.mem_cons.1 ha with rfl | ha
        · exact .inl rfl
        · rcases hafter a ha with rfl | ha
          · exact .inl rfl
          · exact .inr ha
  | done => exact absurd (List.mem_append_right _ List.mem_cons_self) hno

end Comparison

end GraphDelta
