/-
**A pass over two catalogs.**

The changes from one catalog to another come together in a pass over the objects of both.  A fresh object
is queued when it comes by, and a moved one with everything that is below it in the new catalog.  The
forest that tells what is below is made for the first moved object; there may be none, and then the pass
ends there, after some changes have been entered.  It may also end at one of the objects that leave their
place, which come next, and property edits come last.

A pass that goes through enters the difference of the two catalogs, and one that does not fails as the
difference does.

Main definitions:

* `sweep` — steps that go on until one fails, and keep what has been done;
* `Survey` — how far a pass has come;
* `Survey.visit`, `Survey.leave` — an object comes by, and one leaves its place;
* `Survey.enter` — **the pass**;
* `Survey.Seen` — what holds after some objects have come by.

Main results:

* `exists_sweep_eq_ok`, `exists_sweep_eq_error` — when steps go through, and when one fails;
* `Survey.Seen.visit` — what the visit of one object adds;
* `Survey.exists_enter_eq_ok`, `Survey.exists_enter_eq_error` — **a pass enters the difference**.
-/
import GraphDelta.Proofs.Ledger

set_option autoImplicit false

namespace GraphDelta

/-! ### Steps that may fail -/

section Sweep

variable {α σ : Type} {step : α → σ → Except Fault Unit × σ} {l : List α} {s : σ} {e : Fault}

/-- Takes a step for one item after the other until a step fails; what has been done stays. -/
def sweep (step : α → σ → Except Fault Unit × σ) : List α → σ → Except Fault Unit × σ
  | [], s => (.ok (), s)
  | a :: l, s =>
    match step a s with
    | (.ok (), s) => sweep step l s
    | (.error e, s) => (.error e, s)

/-- Steps go through if each one does, and what each one carries on holds after all of them. -/
theorem exists_sweep_eq_ok {P : List α → σ → Prop}
    (hstep : ∀ done a s, P done s → ∃ s', step a s = (.ok (), s') ∧ P (done ++ [a]) s')
    {done : List α} (hs : P done s) : ∃ s', sweep step l s = (.ok (), s') ∧ P (done ++ l) s' := by
  induction l generalizing done s with
  | nil => exact ⟨s, rfl, (List.append_nil done).symm ▸ hs⟩
  | cons a l ih =>
      obtain ⟨s₁, hs₁, h₁⟩ := hstep done a s hs
      obtain ⟨s', hs', h'⟩ := ih h₁
      rw [List.append_assoc] at h'
      exact ⟨s', by rw [sweep, hs₁]; exact hs', h'⟩

/-- They end with a failure if there is an item at which they fail, and the others go through. -/
theorem exists_sweep_eq_error {P : σ → Prop} {Q : α → Prop}
    (hbad : ∀ a s, Q a → P s → ∃ s', step a s = (.error e, s'))
    (hgood : ∀ a s, ¬ Q a → P s → ∃ s', step a s = (.ok (), s') ∧ P s')
    (hs : P s) (h : ∃ a ∈ l, Q a) : ∃ s', sweep step l s = (.error e, s') := by
  induction l generalizing s with
  | nil =>
      obtain ⟨a, ha, -⟩ := h
      exact absurd ha List.not_mem_nil
  | cons a l ih =>
      by_cases ha : Q a
      · obtain ⟨s', hs'⟩ := hbad a s ha hs
        exact ⟨s', by rw [sweep, hs']⟩
      · obtain ⟨s₁, hs₁, h₁⟩ := hgood a s ha hs
        have hl : ∃ b ∈ l, Q b := by
          obtain ⟨b, hb, hbad⟩ := h
          rcases List.mem_cons.1 hb with rfl | hb
          · exact absurd hbad ha
          · exact ⟨b, hb, hbad⟩
        obtain ⟨s', hs'⟩ := ih h₁ hl
        exact ⟨s', by rw [sweep, hs₁]; exact hs'⟩

end Sweep

/-! ### Catalogs and their differences -/

structure Catalog.Filed (c : Catalog) : Prop where
  nodes : c.nodes.Filed
  properties : c.properties.Filed

theorem Catalog.filed_ofSnapshot (s : Snapshot) : (ofSnapshot s).Filed where
  nodes := NodeMap.filed_ofList s.nodes
  properties := PropertyMap.filed_ofList s.properties

/-- A ledger that holds the difference of two catalogs is balanced if its index is in step. -/
theorem Ledger.Indexed.balanced {o c : Catalog} {l : Ledger} (hl : l.Indexed) (ho : o.Filed)
    (hc : c.Filed) (h : Delta.between o c = .ok l.delta) : l.Balanced where
  toIndexed := hl
  nodup_removals := Delta.nodup_removals ho.nodes h
  nodup_edits := Delta.nodup_edits ho.properties hc.properties h
  isEdit _ he := ((Delta.mem_edits ho.properties hc.properties h).1 he).isEdit

/-! ### Surveys -/

/-- How far a pass over the objects of two maps has come. -/
structure Survey where
  ledger : Ledger
  /-- The moved objects, and what is below them in the new map. -/
  rebuilt : Std.ExtTreeSet Ident
  forest? : Option Forest
  gone : List Node
  moved : List Node

namespace Survey

def start (l : Ledger) : Survey := ⟨l, ∅, none, [], []⟩

/-- A moved object comes by.  What is below it is looked up in the forest, which is made if there is
none yet. -/
def move (new : NodeMap) (n n' : Node) (s : Survey) : Except Fault Unit × Survey :=
  let s := { s with moved := s.moved ++ [n] }
  match s.forest?.elim (Forest.ofMap new) .ok with
  | .error e => (.error e, s)
  | .ok f =>
    let s := { s with forest? := some f }
    match f.subtree n'.id with
    | .error e => (.error e, s)
    | .ok ids => (.ok (), { s with
        ledger := .enqueueAll new ids s.ledger
        rebuilt := s.rebuilt.insertMany ids })

def visit (old new : NodeMap) (id : Ident) (s : Survey) : Except Fault Unit × Survey :=
  match old[id]?, new[id]? with
  | none, none => (.ok (), s)
  | none, some n => (.ok (), { s with ledger := s.ledger.enqueue n })
  | some n, none => (.ok (), { s with gone := s.gone ++ [n] })
  | some n, some n' => if n != n' then s.move new n n' else (.ok (), s)

/-- An object leaves its place, and is removed unless one above it is. -/
def leave (old new : NodeMap) (n : Node) (s : Survey) : Except Fault Unit × Survey :=
  match Delta.topmost? old new n with
  | .error e => (.error e, s)
  | .ok ns => (.ok (), { s with ledger := s.ledger.enterRemovals ns })

/-- All objects of both maps come by, and then those leave that have to. -/
def objects (old new : NodeMap) (l : Ledger) : Except Fault Unit × Survey :=
  match sweep (visit old new) (old.allIds new) (start l) with
  | (.error e, s) => (.error e, s)
  | (.ok (), s) => sweep (leave old new) (s.moved ++ s.gone) s

def edits (old new : Catalog) (s : Survey) : Ledger :=
  (Delta.allKeys old new).foldl (fun l k => l.enterEdit (Delta.edit? s.rebuilt old new k)) s.ledger

/-- Enters the changes from one catalog to another into a ledger; where this fails, what has been
entered by then stays. -/
def enter (old new : Catalog) (l : Ledger) : Except Fault Unit × Ledger :=
  match objects old.nodes new.nodes l with
  | (.error e, s) => (.error e, s.ledger)
  | (.ok (), s) => (.ok (), s.edits old new)

variable {old new : NodeMap} {f : Forest} {l : Ledger} {s : Survey} {id : Ident} {e : Fault}

/-! ### Objects that come by -/

/-- What is queued when an object comes by. -/
def queuedFor (f : Forest) (old new : NodeMap) (id : Ident) : List Ident :=
  if old.isFresh new id then [id] else if old.isMoved new id then f.below id else []

theorem mem_of_mem_flatMap_queuedFor (hf : Delta.newForest old new = .ok f) {ids : List Ident}
    (h : id ∈ ids.flatMap (queuedFor f old new)) : id ∈ new := by
  obtain ⟨x, -, hid⟩ := List.mem_flatMap.1 h
  rw [queuedFor] at hid
  split at hid
  · rename_i hfresh
    exact List.mem_singleton.1 hid ▸ (NodeMap.isFresh_iff.1 hfresh).2
  · split at hid
    · rename_i hmoved
      have hmoved := NodeMap.isMoved_iff.1 hmoved
      exact NodeMap.mem_of_leads ((Delta.mem_below_newForest hf hmoved).1 hid) hmoved.mem.2
    · exact absurd hid List.not_mem_nil

/-- Some objects have come by, and nothing has failed. -/
structure Seen (f : Forest) (old new : NodeMap) (l : Ledger) (ids : List Ident) (s : Survey) :
    Prop where
  ledger_eq : s.ledger = .enqueueAll new (ids.flatMap (queuedFor f old new)) l
  gone_eq : s.gone = (ids.filter (old.isGone new)).filterMap (old[·]?)
  moved_eq : s.moved = (ids.filter (old.isMoved new)).filterMap (old[·]?)
  mem_rebuilt : ∀ x, x ∈ s.rebuilt ↔ x ∈ (ids.filter (old.isMoved new)).flatMap f.below
  forest_eq : ∀ g, s.forest? = some g → g = f

theorem seen_start (f : Forest) (old new : NodeMap) (l : Ledger) : Seen f old new l [] (start l) where
  ledger_eq := rfl
  gone_eq := rfl
  moved_eq := rfl
  mem_rebuilt x := by simp [start]
  forest_eq g hg := by cases hg

theorem Seen.push {ids : List Ident} {s' : Survey} (h : Seen f old new l ids s)
    (hledger : s'.ledger = .enqueueAll new (queuedFor f old new id) s.ledger)
    (hgone : s'.gone = s.gone ++ ([id].filter (old.isGone new)).filterMap (old[·]?))
    (hmoved : s'.moved = s.moved ++ ([id].filter (old.isMoved new)).filterMap (old[·]?))
    (hrebuilt : ∀ x, x ∈ s'.rebuilt ↔ x ∈ s.rebuilt ∨ old.isMoved new id = true ∧ x ∈ f.below id)
    (hforest : ∀ g, s'.forest? = some g → g = f) : Seen f old new l (ids ++ [id]) s' where
  ledger_eq := by
    rw [hledger, h.ledger_eq, List.flatMap_append, Ledger.enqueueAll_append, List.flatMap_singleton]
  gone_eq := by rw [hgone, h.gone_eq, List.filter_append, List.filterMap_append]
  moved_eq := by rw [hmoved, h.moved_eq, List.filter_append, List.filterMap_append]
  mem_rebuilt x := by
    rw [hrebuilt, h.mem_rebuilt, List.filter_append, List.flatMap_append, List.mem_append]
    refine or_congr_right ?_
    cases hm : old.isMoved new id <;> simp [hm]
  forest_eq := hforest

theorem move_eq (hs : ∀ g, s.forest? = some g → g = f) (hf : Forest.ofMap new = .ok f) (n : Node)
    {n' : Node} (hn : n'.id ∈ new) : s.move new n n' = (.ok (), { s with
      ledger := .enqueueAll new (f.below n'.id) s.ledger
      rebuilt := s.rebuilt.insertMany (f.below n'.id)
      forest? := some f
      moved := s.moved ++ [n] }) := by
  have hforest : s.forest?.elim (Forest.ofMap new) .ok = .ok f := by
    cases hg : s.forest? with
    | none => exact hf
    | some g => rw [hs g hg]; rfl
  have hsubtree : f.subtree n'.id = .ok (f.below n'.id) := by
    rw [Forest.subtree, Forest.nodes_of_ofMap hf, if_pos (Std.ExtTreeMap.mem_iff_contains.1 hn)]
  simp only [move, hforest, hsubtree]

/-- The visit of an object goes through if there is a forest whenever it moved. -/
theorem Seen.visit (hnew : new.Filed)
    (hf : old.Moved new id → Forest.ofMap new = .ok f) {ids : List Ident}
    (h : Seen f old new l ids s) :
    ∃ s', Survey.visit old new id s = (.ok (), s') ∧ Seen f old new l (ids ++ [id]) s' := by
  have hfresh := NodeMap.isFresh_eq old new id
  have hgone := NodeMap.isGone_eq old new id
  rw [Survey.visit]
  cases ho : old[id]? with
  | none =>
      have hmoved : old.isMoved new id = false := by rw [NodeMap.isMoved, ho]
      cases hn : new[id]? with
      | none =>
          rw [ho, hn] at hfresh hgone
          refine ⟨s, rfl, h.push ?_ ?_ ?_ ?_ h.forest_eq⟩
          all_goals simp [queuedFor, hfresh, hgone, hmoved, Ledger.enqueueAll]
      | some n =>
          rw [ho, hn] at hfresh hgone
          refine ⟨_, rfl, h.push ?_ ?_ ?_ ?_ h.forest_eq⟩
          all_goals simp [queuedFor, hfresh, hgone, hmoved, Ledger.enqueueAll, hn]
  | some a =>
      cases hn : new[id]? with
      | none =>
          have hmoved : old.isMoved new id = false := by rw [NodeMap.isMoved, ho, hn]
          rw [ho, hn] at hfresh hgone
          refine ⟨_, rfl, h.push ?_ ?_ ?_ ?_ h.forest_eq⟩
          all_goals simp [queuedFor, hfresh, hgone, hmoved, Ledger.enqueueAll, ho]
      | some b =>
          have hmoved : old.isMoved new id = (a != b) := by rw [NodeMap.isMoved, ho, hn]
          rw [ho, hn] at hfresh hgone
          cases hab : a != b with
          | false =>
              rw [hab] at hmoved
              refine ⟨s, by simp only [hab]; rfl, h.push ?_ ?_ ?_ ?_ h.forest_eq⟩
              all_goals simp [queuedFor, hfresh, hgone, hmoved, Ledger.enqueueAll]
          | true =>
              rw [hab] at hmoved
              have hb : b.id = id := hnew id b hn
              have hmem : b.id ∈ new := hb.symm ▸ NodeMap.mem_of_getElem?_eq_some hn
              simp only [hab, if_true, move_eq h.forest_eq (hf (NodeMap.isMoved_iff.1 hmoved)) a hmem, hb]
              refine ⟨_, rfl, h.push ?_ ?_ ?_ ?_ fun g hg => (Option.some.inj hg).symm⟩
              all_goals simp [queuedFor, hfresh, hgone, hmoved, ho]

/-- The first visit of a moved object fails if there is no forest. -/
theorem exists_visit_eq_error (hid : old.Moved new id) (hs : s.forest? = none)
    (hf : Forest.ofMap new = .error e) : ∃ s', Survey.visit old new id s = (.error e, s') := by
  obtain ⟨a, b, ha, hb, hne⟩ := hid
  have hvisit : Survey.visit old new id s = s.move new a b := by
    rw [Survey.visit, ha, hb]
    exact if_pos (bne_iff_ne.2 hne)
  exact ⟨{ s with moved := s.moved ++ [a] }, by simp only [hvisit, move, hs, Option.elim_none, hf]⟩

theorem exists_visit_eq_ok (hid : ¬ old.Moved new id) (hs : s.forest? = none) :
    ∃ s', Survey.visit old new id s = (.ok (), s') ∧ s'.forest? = none := by
  rw [Survey.visit]
  split
  · exact ⟨s, rfl, hs⟩
  · exact ⟨_, rfl, hs⟩
  · exact ⟨_, rfl, hs⟩
  · rename_i a b ha hb
    refine ⟨s, if_neg ?_, hs⟩
    rw [bne_iff_ne]
    exact fun hne => hid ⟨a, b, ha, hb, hne⟩

/-! ### Objects that leave -/

variable {ns : List Node} {lists : List (List Node)}

theorem sweep_leave_eq_ok (h : ns.mapM (Delta.topmost? old new) = .ok lists) (s : Survey) :
    sweep (leave old new) ns s = (.ok (), { s with
      ledger := s.ledger.enterRemovals lists.flatten }) := by
  induction ns generalizing lists s with
  | nil =>
      cases h
      exact congrArg (fun ns => (Except.ok (), { s with ledger := { s.ledger with removals := ns } }))
        (List.append_nil s.ledger.removals).symm
  | cons n ns ih =>
      obtain ⟨top, lists, htop, hlists, rfl⟩ := mapM_cons_eq_ok_iff.1 h
      simp only [sweep, leave, htop]
      rw [ih hlists, List.flatten_cons, Ledger.enterRemovals, Ledger.enterRemovals,
        Ledger.enterRemovals, List.append_assoc]

theorem exists_sweep_leave_eq_error (h : ns.mapM (Delta.topmost? old new) = .error e) (s : Survey) :
    ∃ s', sweep (leave old new) ns s = (.error e, s') := by
  induction ns generalizing s with
  | nil => cases h
  | cons n ns ih =>
      rw [sweep, leave]
      rcases mapM_cons_eq_error_iff.1 h with htop | ⟨top, htop, hrest⟩
      · rw [htop]
        exact ⟨s, rfl⟩
      · rw [htop]
        exact ih hrest _

/-! ### The pass over the objects -/

/-- If there is a forest where one is asked for, then objects come by in any order. -/
theorem exists_sweep_visit_eq_ok (hnew : new.Filed) (hf : Delta.newForest old new = .ok f)
    (ids : List Ident) (l : Ledger) : ∃ s,
      sweep (Survey.visit old new) ids (start l) = (.ok (), s) ∧ Seen f old new l ids s := by
  refine exists_sweep_eq_ok (P := Seen f old new l) ?_ (seen_start f old new l)
  intro ids id s hs
  exact hs.visit hnew fun hid => (Delta.newForest_of_moved hid).symm.trans hf

theorem exists_objects_eq_sweep (hnew : new.Filed) (hf : Delta.newForest old new = .ok f)
    (l : Ledger) : ∃ s, objects old new l = sweep (leave old new) (Delta.leaving old new) s ∧
      Seen f old new l (old.allIds new) s := by
  obtain ⟨s, hs, hseen⟩ := exists_sweep_visit_eq_ok hnew hf (old.allIds new) l
  have hleaving : s.moved ++ s.gone = Delta.leaving old new := by
    rw [hseen.moved_eq, hseen.gone_eq, ← List.filterMap_append]
    rfl
  exact ⟨s, by rw [objects, hs, ← hleaving], hseen⟩

/-- A pass over the objects queues what a difference adds, and removes what it removes. -/
theorem exists_objects_eq_ok (hnew : new.Filed) (hf : Delta.newForest old new = .ok f)
    (hl : (Delta.leaving old new).mapM (Delta.topmost? old new) = .ok lists) (l : Ledger) :
    ∃ s, objects old new l = (.ok (), s) ∧
      s.ledger = (Ledger.enqueueAll new ((old.allIds new).flatMap (queuedFor f old new))
        l).enterRemovals lists.flatten ∧
      s.rebuilt = Delta.rebuiltIds f old new := by
  obtain ⟨s, hs, hseen⟩ := exists_objects_eq_sweep hnew hf l
  refine ⟨_, hs.trans (sweep_leave_eq_ok hl s), ?_, ?_⟩
  · rw [← hseen.ledger_eq]
  · refine Std.ExtTreeSet.ext_mem fun x => ?_
    rw [hseen.mem_rebuilt, Delta.rebuiltIds, Std.ExtTreeSet.mem_ofList, List.contains_iff_mem]
    rfl

/-- It fails if there is no forest where one is asked for. -/
theorem exists_objects_eq_error_of_newForest (hf : Delta.newForest old new = .error e) (l : Ledger) :
    ∃ s, objects old new l = (.error e, s) := by
  obtain ⟨id, hid⟩ : ∃ id, old.Moved new id := by
    by_contra hno
    rw [Delta.newForest_of_not_moved hno] at hf
    cases hf
  rw [Delta.newForest_of_moved hid] at hf
  -- until the first moved object comes by, nothing asks for a forest
  obtain ⟨s, hs⟩ : ∃ s, sweep (Survey.visit old new) (old.allIds new) (start l) = (.error e, s) :=
    exists_sweep_eq_error (P := fun s => s.forest? = none)
      (Q := fun id => old.Moved new id)
      (fun _ _ hid hs => exists_visit_eq_error hid hs hf) (fun _ _ => exists_visit_eq_ok)
      rfl ⟨id, NodeMap.mem_allIds.2 (.inl hid.mem.1), hid⟩
  exact ⟨s, by rw [objects, hs]⟩

theorem exists_objects_eq_error_of_topmost? (hnew : new.Filed)
    (hf : Delta.newForest old new = .ok f)
    (hl : (Delta.leaving old new).mapM (Delta.topmost? old new) = .error e) (l : Ledger) :
    ∃ s, objects old new l = (.error e, s) := by
  obtain ⟨s, hs, -⟩ := exists_objects_eq_sweep hnew hf l
  rw [hs]
  exact exists_sweep_leave_eq_error hl s

/-! ### The whole pass -/

variable {o c : Catalog} {d : Delta}

theorem edits_eq (o c : Catalog) (s : Survey) : s.edits o c = { s.ledger with
    edits := s.ledger.edits ++ (Delta.allKeys o c).filterMap (Delta.edit? s.rebuilt o c) } := by
  have hfold (ks : List Property.Key) (l : Ledger) :
      ks.foldl (fun l k => l.enterEdit (Delta.edit? s.rebuilt o c k)) l =
        { l with edits := l.edits ++ ks.filterMap (Delta.edit? s.rebuilt o c) } := by
    induction ks generalizing l with
    | nil => rw [List.foldl_nil, List.filterMap_nil, List.append_nil]
    | cons k ks ih =>
        rw [List.foldl_cons, ih, Ledger.enterEdit, List.filterMap_cons, List.append_assoc]
        cases Delta.edit? s.rebuilt o c k <;> rfl
  exact hfold _ _

/-- **A pass enters the difference of two catalogs**, and nothing twice. -/
theorem exists_enter_eq_ok (ho : o.Filed) (hc : c.Filed) (h : Delta.between o c = .ok d) :
    ∃ l, enter o c .empty = (.ok (), l) ∧ l.delta = d ∧ l.Balanced := by
  obtain ⟨f, lists, hf, hl, hd⟩ := Delta.between_eq_ok_iff.1 h
  obtain ⟨s, hs, hledger, hrebuilt⟩ := exists_objects_eq_ok hc.nodes hf hl .empty
  let ids := (o.nodes.allIds c.nodes).flatMap (queuedFor f o.nodes c.nodes)
  have hids : ∀ id ∈ ids, id ∈ c.nodes := fun _ hid => mem_of_mem_flatMap_queuedFor hf hid
  have hadditions := Ledger.additions_enqueueAll hc.nodes hids .empty
  obtain ⟨hremovals, hedits⟩ := Ledger.enqueueAll_frame c.nodes ids .empty
  have hdelta : (s.edits o c).delta = d := by
    rw [edits_eq, hledger, hrebuilt, hd, Ledger.delta, Ledger.enterRemovals, hadditions, hremovals,
      hedits]
    rfl
  have hindexed : (s.edits o c).Indexed := by
    have hqueued := Ledger.indexed_empty.enqueueAll c.nodes ids
    rw [edits_eq, hledger]
    exact ⟨hqueued.nodup, hqueued.contains_queued⟩
  exact ⟨s.edits o c, by rw [enter, hs], hdelta, hindexed.balanced ho hc (hdelta ▸ h)⟩

theorem exists_enter_eq_error (hc : c.Filed) (h : Delta.between o c = .error e) (l : Ledger) :
    ∃ l', enter o c l = (.error e, l') := by
  obtain ⟨s, hs⟩ : ∃ s, objects o.nodes c.nodes l = (.error e, s) := by
    rcases Delta.between_eq_error_iff.1 h with hf | ⟨f, hf, hl⟩
    · exact exists_objects_eq_error_of_newForest hf l
    · exact exists_objects_eq_error_of_topmost? hc.nodes hf hl l
  exact ⟨s.ledger, by rw [enter, hs]⟩

/-- By the time a pass fails, something may have been entered: here an object is queued before another one
becomes its own parent. -/
example :
    let old : Catalog := .ofSnapshot ⟨[⟨none, "T", ⟨"x"⟩, 0⟩], []⟩
    let new : Catalog := .ofSnapshot ⟨[⟨none, "T", ⟨"a"⟩, 0⟩, ⟨some ⟨"x"⟩, "T", ⟨"x"⟩, 0⟩], []⟩
    (enter old new .empty).1 = .error (.cycle ⟨"x"⟩) ∧
      (enter old new .empty).2.additions = [⟨none, "T", ⟨"a"⟩, 0⟩] := by
  exact ⟨by rfl, by decide +kernel⟩

end Survey

end GraphDelta
