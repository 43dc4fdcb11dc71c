/-
**What a sink sees of a replay.**

A sink may refuse any call, and it may answer the next one as it likes.  Whatever it does, it sees one
of three courses of a replay: a begin that is refused, and nothing more; a begin, calls that it takes,
one that it refuses, and a rollback; or a begin and all calls of the replay, the commit last.  The
answer to the rollback decides nothing.

What a sink sees is written down by watching it, which changes neither its answers nor its state.

Main definitions:

* `Sink.Record` — calls with the answers to them;
* `Sink.watched` — a sink together with the record of the calls to it;
* `Replay.script` — the calls of a replay after the begin;
* `Replay.Course` — the courses that a replay can take once there is an order of the additions.

Main results:

* `Sink.send_watched` — several calls go on up to the first that is refused;
* `Comparison.replay_protocol` — **a sink sees one of these courses, or no call at all**.
-/
import GraphDelta.Replay
import Mathlib.Control.Monad.Basic

set_option autoImplicit false

namespace GraphDelta

variable {σ : Type} {c : Comparison} {mode : Replay.Mode}

/-! ### Watching a sink -/

namespace Sink

/-- Calls in the order in which they came, each with the answer to it. -/
abbrev Record := List (Call × Except Refusal Unit)

/-- The record of calls that were all taken. -/
def taken (calls : List Call) : Record := calls.map (·, .ok ())

/-- A sink together with the record of the calls to it. -/
def watched (sink : Sink σ) : Sink (σ × Record) := fun call (s, record) =>
  let (answer, s) := sink call s
  (answer, s, record ++ [(call, answer)])

theorem watched_eq {sink : Sink σ} {call : Call} {s s' : σ} {answer : Except Refusal Unit}
    (h : sink call s = (answer, s')) (record : Record) :
    sink.watched call (s, record) = (answer, s', record ++ [(call, answer)]) := by
  rw [watched, h]

/-- Several calls go on up to the first that is refused, watched or not. -/
theorem send_watched (sink : Sink σ) (calls : List Call) (s : σ) (record : Record) :
    (∃ s', sink.send calls s = (.ok (), s') ∧
      sink.watched.send calls (s, record) = (.ok (), s', record ++ taken calls)) ∨
    ∃ before call after e s', calls = before ++ call :: after ∧
      sink.send calls s = (.error e, s') ∧
      sink.watched.send calls (s, record) =
        (.error e, s', record ++ taken before ++ [(call, .error e)]) := by
  induction calls generalizing s record with
  | nil => exact .inl ⟨s, rfl, by rw [taken, List.map_nil, List.append_nil]; rfl⟩
  | cons call calls ih =>
      rw [send, send]
      rcases hcall : sink call s with ⟨e | u, s₁⟩
      · refine .inr ⟨[], call, calls, e, s₁, rfl, rfl, ?_⟩
        rw [watched_eq hcall, taken, List.map_nil, List.append_nil]
      · rw [watched_eq hcall]
        rcases ih s₁ (record ++ [(call, .ok ())]) with
          ⟨s', hsend, hwatched⟩ | ⟨before, refused, after, e, s', rfl, hsend, hwatched⟩
        · refine .inl ⟨s', hsend, hwatched.trans ?_⟩
          rw [List.append_assoc]
          rfl
        · refine .inr ⟨call :: before, refused, after, e, s', rfl, hsend, hwatched.trans ?_⟩
          rw [List.append_assoc record]
          rfl

end Sink

/-! ### The courses of a replay -/

namespace Replay

/-- What a replay of a difference sends after the begin, with the additions in the given order, if every
call is taken.  A conditional edit tells the value before, a plain one does not. -/
def script (d : Delta) (mode : Mode) (additions : List Node) : List Call :=
  d.removals.map (fun n => .remove n.parent n.id) ++
    additions.map (fun n => .add n.parent n.typeTag n.id n.index) ++
    d.edits.map (fun e => .set e.owner e.name e.type
      (match mode with
        | .plain => none
        | .conditional => some e.before) e.after) ++
    [.commit]

theorem calls_append_commit (d : Delta) (mode : Mode) (additions : List Node) :
    d.calls mode additions ++ [.commit] = script d mode additions := by
  have hedits : d.edits.map (Property.call mode) = d.edits.map fun e => .set e.owner e.name e.type
      (match mode with
        | .plain => none
        | .conditional => some e.before) e.after := by
    cases mode <;> rfl
  rw [Delta.calls, hedits]
  rfl

/-- The courses that a replay of a difference can take, with the additions in the given order: what it
answers, and what its sink sees. -/
inductive Course (d : Delta) (mode : Mode) (additions : List Node) :
    Except Fault Tally → Sink.Record → Prop
  -- the begin is refused, and nothing follows
  | unbegun {e : Refusal} : Course d mode additions (.error (.refused e)) [(.begin, .error e)]
  -- a call within the transaction is refused, and a rollback follows that may be refused as well
  | broken {before after : List Call} {call : Call} {e : Refusal} {a : Except Refusal Unit} :
      script d mode additions = before ++ call :: after →
      Course d mode additions (.error (.refused e))
        ((.begin, .ok ()) :: Sink.taken before ++ [(call, .error e), (.rollback, a)])
  -- every call is taken
  | completed : Course d mode additions
      (.ok ⟨d.removals.length, d.additions.length, d.edits.length⟩)
      ((.begin, .ok ()) :: Sink.taken (script d mode additions))

end Replay

namespace Comparison

theorem order_eq (c : Comparison) :
    c.order = if c.isDone then replayOrder c.delta.additions c.new.nodes else .error .notCompared := by
  cases c with
  | fresh => rfl
  | failed => rfl
  | done => rfl

/-- Once there is an order, a watched replay takes one of the courses, and does to the sink what it does
unwatched. -/
theorem course_of_order {l : List Node} (hl : c.order = .ok l) (sink : Sink σ) (s : σ) :
    ∃ answer s' record, c.replay mode sink s = (answer, s') ∧
      c.replay mode sink.watched (s, []) = (answer, s', record) ∧
      Replay.Course c.delta mode l answer record := by
  rw [replay, replay, hl]
  rcases hbegin : sink .begin s with ⟨e | u, s₁⟩
  · refine ⟨.error (.refused e), s₁, [(.begin, .error e)], rfl, ?_, .unbegun⟩
    simp only [Sink.watched_eq hbegin]
    rfl
  · simp only [Sink.watched_eq hbegin, Replay.calls_append_commit]
    rcases sink.send_watched (Replay.script c.delta mode l) s₁ ([] ++ [(.begin, .ok ())]) with
      ⟨s', hsend, hwatched⟩ | ⟨before, call, after, e, s', hcalls, hsend, hwatched⟩
    · refine ⟨.ok c.delta.tally, s', _, by simp only [hsend], ?_, .completed⟩
      simp only [hwatched]
      rfl
    · rcases hrollback : sink .rollback s' with ⟨answer, s₂⟩
      refine ⟨.error (.refused e), s₂, _, by simp only [hsend, hrollback], ?_,
        .broken (a := answer) hcalls⟩
      simp only [hwatched, Sink.watched_eq hrollback, List.append_assoc]
      rfl

/-- **A sink sees one of these courses, or no call at all.**  If the comparison is not done, or its
additions have no order, the replay fails with the reason of that and the sink sees nothing.  Else it
sees a begin; if that is taken, the removals, the additions in their order, the edits and the commit, up
to the first call that is refused; and after that one, and only then, a rollback.  The replay answers
with the reason of the refused call, or with the numbers of removals, additions and edits. -/
theorem replay_protocol (c : Comparison) (mode : Replay.Mode) (sink : Sink σ) (s : σ) :
    ((c.replay mode sink.watched (s, [])).1 = (c.replay mode sink s).1 ∧
      (c.replay mode sink.watched (s, [])).2.1 = (c.replay mode sink s).2) ∧
    match (if c.isDone then replayOrder c.delta.additions c.new.nodes else .error .notCompared) with
    | .error e => c.replay mode sink.watched (s, []) = (.error e, s, [])
    | .ok l => Replay.Course c.delta mode l (c.replay mode sink.watched (s, [])).1
        (c.replay mode sink.watched (s, [])).2.2 := by
  rw [← order_eq]
  cases hl : c.order with
  | error e =>
      have hreplay {τ : Type} (sink : Sink τ) (s : τ) : c.replay mode sink s = (.error e, s) := by
        rw [replay, hl]
      rw [hreplay, hreplay]
      exact ⟨⟨rfl, rfl⟩, rfl⟩
  | ok l =>
      obtain ⟨answer, s', record, hreplay, hwatched, hcourse⟩ := course_of_order hl sink s
      rw [hreplay, hwatched]
      exact ⟨⟨rfl, rfl⟩, hcourse⟩

/-- An object changes and takes its child along, another is gone, and a value changes.  A sink that takes
every call sees the whole plain replay.  One that takes no edit and no rollback sees the conditional one
up to the first edit, and the rollback; the replay answers with the reason of the edit. -/
theorem replay_protocol_of_move :
    let old : Snapshot := ⟨
      [⟨none, "T", ⟨"a"⟩, 0⟩, ⟨some ⟨"a"⟩, "T", ⟨"b"⟩, 0⟩, ⟨some ⟨"b"⟩, "T", ⟨"c"⟩, 1⟩,
        ⟨some ⟨"a"⟩, "T", ⟨"d"⟩, 2⟩],
      [.point ⟨"a"⟩ "x" .string (.ofText "1")]⟩
    let new : Snapshot := ⟨
      [⟨none, "T", ⟨"a"⟩, 0⟩, ⟨some ⟨"a"⟩, "U", ⟨"b"⟩, 3⟩, ⟨some ⟨"b"⟩, "T", ⟨"c"⟩, 1⟩],
      [.point ⟨"a"⟩ "x" .string (.ofText "2"), .point ⟨"b"⟩ "x" .long (.ofText "3")]⟩
    let c : Comparison := (fresh.compare old new).2
    let additions : List Node := [⟨some ⟨"a"⟩, "U", ⟨"b"⟩, 3⟩, ⟨some ⟨"b"⟩, "T", ⟨"c"⟩, 1⟩]
    let changes : List Call := [.remove (some ⟨"a"⟩) ⟨"b"⟩, .remove (some ⟨"a"⟩) ⟨"d"⟩,
      .add (some ⟨"a"⟩) "U" ⟨"b"⟩ 3, .add (some ⟨"b"⟩) "T" ⟨"c"⟩ 1]
    let lenient : Sink Unit := fun _ _ => (.ok (), ())
    let strict : Sink Unit := fun call _ =>
      match call with
      | .set id _ _ _ _ => (.error (.unknown id), ())
      | .rollback => (.error .noTransaction, ())
      | _ => (.ok (), ())
    let all : Sink.Record := (.begin, .ok ()) :: Sink.taken (changes ++ [
      .set ⟨"a"⟩ "x" .string none (.ofText "2"), .set ⟨"b"⟩ "x" .long none (.ofText "3"), .commit])
    let part : Sink.Record := (.begin, .ok ()) :: Sink.taken changes ++ [
      (.set ⟨"a"⟩ "x" .string (some (.ofText "1")) (.ofText "2"), .error (.unknown ⟨"a"⟩)),
      (.rollback, .error .noTransaction)]
    c.replay .plain lenient.watched ((), []) = (.ok ⟨2, 2, 2⟩, (), all) ∧
    c.replay .conditional strict.watched ((), []) = (.error (.refused (.unknown ⟨"a"⟩)), (), part) ∧
    Replay.Course c.delta .plain additions (.ok ⟨2, 2, 2⟩) all ∧
    Replay.Course c.delta .conditional additions (.error (.refused (.unknown ⟨"a"⟩))) part := by
  intro old new c additions changes lenient strict all part
  have hplain : c.replay .plain lenient.watched ((), []) = (.ok ⟨2, 2, 2⟩, (), all) := by
    decide +kernel
  have hconditional : c.replay .conditional strict.watched ((), []) =
      (.error (.refused (.unknown ⟨"a"⟩)), (), part) := by
    decide +kernel
  have horder : (if c.isDone then replayOrder c.delta.additions c.new.nodes
      else .error .notCompared) = .ok additions := by decide +kernel
  obtain ⟨-, hall⟩ := replay_protocol c .plain lenient ()
  obtain ⟨-, hpart⟩ := replay_protocol c .conditional strict ()
  rw [horder, hplain] at hall
  rw [horder, hconditional] at hpart
  exact ⟨hplain, hconditional, hall, hpart⟩

end Comparison

end GraphDelta
