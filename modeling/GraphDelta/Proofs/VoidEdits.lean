/-
**Edits that change nothing.**

A workspace keeps no null values: null and no value at all are the same to it.  A catalog files the
record of a null value like any other.  So a comparison can list an edit from null to null, where one of
the snapshots has a record of null and the other one has no record, or where both have one and the types
differ.  No other edit is void: unless its object is added again, it changes what a workspace keeps.

Main definitions:

* `Property.IsVoid` — an edit from null to null.

Main results:

* `Delta.Edited.isVoid_iff` — an edit of an object that is not rebuilt is void exactly if a workspace
  keeps the same of both snapshots;
* `Comparison.edits_void_iff` — **which edits change nothing**.
-/
import GraphDelta.Proofs.Labels
import GraphDelta.Proofs.Verdict

set_option autoImplicit false

namespace GraphDelta

variable {o c : Catalog} {k : Property.Key} {p q e : Property}

namespace Property

/-- An edit from null to null. -/
def IsVoid (e : Property) : Prop := e.before.isNull = true ∧ e.after.isNull = true

theorem isVoid_mk {owner : Ident} {name : String} {type : ValueType} {before after : Value}
    {isEdit : Bool} : (mk owner name type before after isEdit).IsVoid ↔
      before.isNull = true ∧ after.isNull = true := .rfl

theorem stored?_eq_none_iff : p.stored? = none ↔ p.after.isNull = true := by
  rw [stored?]
  split <;> simp_all

/-- What is kept of two properties is equal only if nothing is kept of either, or they hold one value
under one type. -/
theorem isNull_or_sameValue_of_stored?_beq (h : (p.stored? == q.stored?) = true) :
    (p.after.isNull = true ∧ q.after.isNull = true) ∨ p.sameValue q = true := by
  rw [stored?, stored?] at h
  by_cases hp : p.after.isNull = true
  · by_cases hq : q.after.isNull = true
    · exact .inl ⟨hp, hq⟩
    · rw [if_pos hp, if_neg hq] at h
      cases h
  · by_cases hq : q.after.isNull = true
    · rw [if_neg hp, if_pos hq] at h
      cases h
    · rw [if_neg hp, if_neg hq] at h
      have h : (point p.owner p.name p.type p.after == point q.owner q.name q.type q.after) = true := h
      simp only [beq_def, point, Bool.and_eq_true] at h
      right
      rw [sameValue, Bool.and_eq_true]
      exact ⟨h.1.1.1.2, h.1.2⟩

end Property

/-! ### Void edits -/

namespace Delta

/-- **An edit of an object that is not rebuilt is void** exactly if a workspace keeps the same of both
snapshots. -/
theorem Edited.isVoid_iff (hc : c.properties.Filed) (h : Edited o c k e)
    (hno : ¬ IsRebuilt o.nodes c.nodes k.owner) : e.IsVoid ↔
      (o.properties[k]?.bind Property.stored? == c.properties[k]?.bind Property.stored?) = true := by
  have hnull : Value.null.isNull = true := rfl
  cases h with
  | @fresh q ho hq =>
      simp only [ho, hq, Option.bind_none, Option.bind_some, Property.isVoid_mk, hnull, true_and,
        ← Property.stored?_eq_none_iff]
      cases q.stored? <;> simp
  | @gone p hp hq _ =>
      simp only [hp, hq, Option.bind_none, Option.bind_some, Property.isVoid_mk, hnull, and_true,
        ← Property.stored?_eq_none_iff]
      cases p.stored? <;> simp
  | @changed p q hp hq hne =>
      rw [hp, hq, Option.bind_some, Option.bind_some, Property.isVoid_mk]
      constructor
      · rintro ⟨hbefore, hafter⟩
        rw [Property.stored?_eq_none_iff.2 hbefore, Property.stored?_eq_none_iff.2 hafter]
        rfl
      · intro hstored
        refine (Property.isNull_or_sameValue_of_stored?_beq hstored).resolve_right fun hsame => ?_
        exact Bool.false_ne_true (hne.symm.trans hsame)
  | @rebuilt p q _ hq _ hr =>
      have hkey : q.key = k := hc k q hq
      subst hkey
      exact absurd hr hno

theorem Edited.not_isVoid (ho : ∀ p, o.properties[k]? = some p → p.after.isNull = false)
    (hc : ∀ q, c.properties[k]? = some q → q.after.isNull = false) (h : Edited o c k e) :
    ¬ e.IsVoid := by
  rintro ⟨hbefore, hafter⟩
  cases h with
  | fresh _ hq => exact Bool.false_ne_true ((hc _ hq).symm.trans hafter)
  | gone hp _ _ => exact Bool.false_ne_true ((ho _ hp).symm.trans hbefore)
  | changed _ hq _ => exact Bool.false_ne_true ((hc _ hq).symm.trans hafter)
  | rebuilt _ hq _ _ => exact Bool.false_ne_true ((hc _ hq).symm.trans hafter)

end Delta

/-! ### Real changes -/

namespace Comparison

open Workspace (State)

/-- **Which edits change nothing.**  Unless its object is added, an edit is void exactly if a workspace
keeps the same of both snapshots; there are no void edits between snapshots without nulls.  Where
workspaces that hold the two snapshots read the same, there are void edits only.  An object that an
outline shows as edited has edits, and what a workspace keeps of them is the same of both snapshots
exactly if all of them are void. -/
theorem edits_void_iff (old new : Snapshot) (c : Comparison)
    (h : fresh.compare old new = (.ok (), c)) :
    (∀ e ∈ c.delta.edits, c.delta.adds e.owner = false → (e.IsVoid ↔
      ((State.ofSnapshot old).properties[e.key]? ==
        (State.ofSnapshot new).properties[e.key]?) = true)) ∧
    ((∀ p ∈ old.properties ++ new.properties, p.after.isNull = false) →
      ∀ e ∈ c.delta.edits, ¬ e.IsVoid) ∧
    (((Workspace.ofSnapshot old).snapshot == (Workspace.ofSnapshot new).snapshot) = true →
      ∀ e ∈ c.delta.edits, e.IsVoid) ∧
    ∀ root shows entries, c.outline root shows = .ok entries → ∀ a ∈ entries, a.status = .edited →
      (∃ e ∈ c.delta.edits, e.owner = a.id) ∧
      ((∀ e ∈ c.delta.edits, e.owner = a.id → ((State.ofSnapshot old).properties[e.key]? ==
          (State.ofSnapshot new).properties[e.key]?) = true) ↔
        ∀ e ∈ c.delta.edits, e.owner = a.id → e.IsVoid) := by
  obtain ⟨d, hd, rfl⟩ := compare_eq_ok_iff.1 h
  have ho : (Catalog.ofSnapshot old).properties.Filed := PropertyMap.filed_ofList old.properties
  have hc : (Catalog.ofSnapshot new).properties.Filed := PropertyMap.filed_ofList new.properties
  have hadds (id : Ident) : d.adds id = true ↔ old.objects.isFresh new.objects id = true ∨
      Delta.IsRebuilt old.objects new.objects id :=
    Delta.adds_iff (NodeMap.filed_ofList new.nodes) hd
  have hvoid : ∀ e ∈ d.edits, d.adds e.owner = false → (e.IsVoid ↔
      ((State.ofSnapshot old).properties[e.key]? ==
        (State.ofSnapshot new).properties[e.key]?) = true) := by
    intro e he hno
    rw [State.getElem?_properties_ofSnapshot, State.getElem?_properties_ofSnapshot]
    refine ((Delta.mem_edits ho hc hd).1 he).isVoid_iff hc fun hr => ?_
    exact Bool.false_ne_true (hno.symm.trans ((hadds e.owner).2 (.inr hr)))
  refine ⟨hvoid, ?_, ?_, ?_⟩
  · intro hnull e he
    refine ((Delta.mem_edits ho hc hd).1 he).not_isVoid ?_ ?_
    · exact fun p hp => hnull p (List.mem_append_left _ (PropertyMap.mem_of_getElem?_ofList hp))
    · exact fun q hq => hnull q (List.mem_append_right _ (PropertyMap.mem_of_getElem?_ofList hq))
  · intro hsame e he
    obtain ⟨hobjects, hstored⟩ := (Workspace.snapshot_beq_iff old new).1 hsame
    have hno : d.adds e.owner = false := by
      rw [Bool.eq_false_iff, ne_eq, hadds]
      rintro (hfresh | ⟨x, hmoved, -⟩)
      · obtain ⟨hold, hnew⟩ := NodeMap.isFresh_iff.1 hfresh
        have hnew : e.owner ∈ new.objects := hnew
        rw [← hobjects] at hnew
        exact hold hnew
      · obtain ⟨a, b, ha, hb, hne⟩ := hmoved
        have ha : old.objects[x]? = some a := ha
        rw [hobjects] at ha
        exact hne (Option.some_inj.1 (ha.symm.trans hb))
    rw [hvoid e he hno, State.getElem?_properties_ofSnapshot, State.getElem?_properties_ofSnapshot]
    exact hstored e.key
  · intro root shows entries hentries a ha hedited
    have hchanges := Outline.changes_of_mem_outline hentries ha (by rw [hedited]; decide)
    rw [hedited] at hchanges
    obtain ⟨hno, -, hedits⟩ := hchanges
    exact ⟨hedits, forall₃_congr fun e he hid => (hvoid e he (hid ▸ hno)).symm⟩

/-- A null value becomes the empty text, a value changes, and one becomes null.  A null value comes, a
null value goes, and one gets another type. -/
theorem edits_void_iff_null :
    let old : Snapshot := ⟨[⟨some ⟨"r"⟩, "T", ⟨"a"⟩, 0⟩],
      [.point ⟨"a"⟩ "t" .string .null, .point ⟨"a"⟩ "u" .string (.ofText "1"),
        .point ⟨"a"⟩ "v" .string (.ofText "1"),
        .point ⟨"a"⟩ "x" .string .null, .point ⟨"a"⟩ "y" .string .null]⟩
    let new : Snapshot := ⟨[⟨some ⟨"r"⟩, "T", ⟨"a"⟩, 0⟩],
      [.point ⟨"a"⟩ "t" .string (.ofText ""), .point ⟨"a"⟩ "u" .string (.ofText "2"),
        .point ⟨"a"⟩ "v" .string .null,
        .point ⟨"a"⟩ "x" .long .null, .point ⟨"a"⟩ "z" .string .null]⟩
    ∃ c, fresh.compare old new = (.ok (), c) ∧
      c.delta.edits.map Property.name = ["t", "u", "v", "x", "y", "z"] ∧
      ∀ e ∈ c.delta.edits, e.name ∈ ["x", "y", "z"] ↔
        ((State.ofSnapshot old).properties[e.key]? ==
          (State.ofSnapshot new).properties[e.key]?) = true := by
  intro old new
  have hc : fresh.compare old new = (.ok (), (fresh.compare old new).2) := Prod.ext (by rfl) rfl
  have hnames : (fresh.compare old new).2.delta.edits.map Property.name =
      ["t", "u", "v", "x", "y", "z"] := by decide +kernel
  have hadds : ∀ e ∈ (fresh.compare old new).2.delta.edits,
      (fresh.compare old new).2.delta.adds e.owner = false := by decide +kernel
  have hvoid : ∀ e ∈ (fresh.compare old new).2.delta.edits,
      e.name ∈ ["x", "y", "z"] ↔ e.before.isNull = true ∧ e.after.isNull = true := by decide +kernel
  refine ⟨_, hc, hnames, fun e he => ?_⟩
  exact (hvoid e he).trans ((edits_void_iff old new _ hc).1 e he (hadds e he))

/-- Not every edit changes something: a null value that comes is edited from null to null. -/
theorem edit_of_null_is_void : ¬ ∀ (old new : Snapshot) (c : Comparison),
    fresh.compare old new = (.ok (), c) → ∀ e ∈ c.delta.edits, c.delta.adds e.owner = false →
      ((State.ofSnapshot old).properties[e.key]? ==
        (State.ofSnapshot new).properties[e.key]?) = false := by
  intro h
  let old : Snapshot := ⟨[⟨none, "T", ⟨"a"⟩, 0⟩], []⟩
  let new : Snapshot := ⟨[⟨none, "T", ⟨"a"⟩, 0⟩], [.point ⟨"a"⟩ "x" .string .null]⟩
  have hc : fresh.compare old new = (.ok (), (fresh.compare old new).2) := Prod.ext (by rfl) rfl
  have hedits : (fresh.compare old new).2.delta.edits = [.edit ⟨"a"⟩ "x" .string .null .null] := by
    decide +kernel
  have hreal := h old new _ hc _ (hedits ▸ List.mem_cons_self) (by decide +kernel)
  exact absurd hreal (by decide +kernel)

end Comparison

end GraphDelta
