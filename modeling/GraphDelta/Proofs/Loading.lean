/-
**Two ways of reading a snapshot.**

A comparison looks its snapshots up in catalogs, and a replay meets the graph that a workspace has loaded.
The two are filled record by record, each in its own way.  A catalog files every record, null or not.  A
workspace keeps values and no nulls: a null takes away what was set before, and a later value comes back.

They read the same all the same.  Both have the last record of every object, whatever was listed before.
Under every key they have the value of the last record, if an absent value counts as null, and it has the
same type in both unless it is null.  What a workspace lists is all that it holds, each object and each key
once, in ascending order.

Main results:

* `Workspace.State.value_ofSnapshot`, `Workspace.State.type_ofSnapshot` — values and types in a workspace
  are those of the catalog;
* `Workspace.reads_as_catalog` — **a workspace and a catalog read a snapshot alike**.
-/
import GraphDelta.Proofs.Coherence

set_option autoImplicit false

namespace GraphDelta

variable {s : Snapshot} {k : Property.Key}

namespace Workspace

namespace State

theorem getElem?_properties_eq (s : Snapshot) (k : Property.Key) :
    (ofSnapshot s).properties[k]? = (Catalog.ofSnapshot s).properties[k]?.bind Property.stored? :=
  getElem?_properties_ofSnapshot s k

theorem value_ofSnapshot (s : Snapshot) (k : Property.Key) :
    (ofSnapshot s).value k = ((Catalog.ofSnapshot s).value? k).getD .null := by
  have hk := getElem?_properties_eq s k
  rw [Catalog.value?]
  cases hp : (Catalog.ofSnapshot s).properties[k]? with
  | none =>
      rw [hp, Option.bind_none] at hk
      rw [value, hk]
      rfl
  | some p =>
      rw [hp, Option.bind_some] at hk
      exact value_eq hk

theorem type_ofSnapshot (h : (ofSnapshot s).value k ≠ .null) :
    (ofSnapshot s).properties[k]?.map Property.type =
      (Catalog.ofSnapshot s).properties[k]?.map Property.type := by
  rw [value_ofSnapshot, Catalog.value?] at h
  rw [getElem?_properties_eq]
  cases hp : (Catalog.ofSnapshot s).properties[k]? with
  | none => rfl
  | some p =>
      rw [hp] at h
      have hnull : ¬ p.after.isNull = true := fun hnull => h (Value.isNull_iff.1 hnull)
      rw [Option.bind_some, Property.stored?, if_neg hnull]
      rfl

end State

/-- **A workspace and a catalog read a snapshot alike.**  Whatever the records of the snapshot are, both
hold the last record of each object.  Under each key both hold the value of the last record, an absent
value being null, and the same type unless it is null.  What the workspace lists is what it holds, in the
strict order of the identifiers and of the keys. -/
theorem reads_as_catalog (s : Snapshot) :
    let w := ofSnapshot s
    let c := Catalog.ofSnapshot s
    (∀ id : Ident, w.committed.nodes[id]? = c.nodes[id]? ∧
      c.nodes[id]? = (s.nodes.filter (·.id = id)).getLast?) ∧
    (∀ k : Property.Key, w.committed.value k = (c.value? k).getD .null ∧
      (w.committed.value k ≠ .null →
        w.committed.properties[k]?.map Property.type = c.properties[k]?.map Property.type) ∧
      c.properties[k]? = (s.properties.filter (·.key = k)).getLast?) ∧
    (∀ n, n ∈ w.snapshot.nodes ↔ w.committed.nodes[n.id]? = some n) ∧
    (∀ p, p ∈ w.snapshot.properties ↔ w.committed.properties[p.key]? = some p) ∧
    (w.snapshot.nodes.Pairwise fun a b => compare a.id b.id = .lt) ∧
    w.snapshot.properties.Pairwise fun p q => compare p.key q.key = .lt := by
  intro w c
  have hw : w.committed.Recorded := State.recorded_ofSnapshot s
  refine ⟨fun id => ⟨?_, NodeMap.getElem?_ofList s.nodes id⟩, fun k => ⟨State.value_ofSnapshot s k,
    State.type_ofSnapshot, PropertyMap.getElem?_ofList s.properties k⟩,
    fun n => mem_map_snd_toList hw.nodes, fun p => mem_map_snd_toList hw.properties,
    pairwise_map_snd_toList hw.nodes, pairwise_map_snd_toList hw.properties⟩
  exact congrArg (·[id]?) (State.nodes_ofSnapshot s)

/-- Of the records of `a`, and of its property `u`, the last one counts, although a null came before it.
The null of `b` is kept in the catalog only, and the value of `z` without its owner in both. -/
theorem reads_as_catalog_nulls :
    let s : Snapshot := ⟨
      [⟨some ⟨"b"⟩, "T", ⟨"c"⟩, 0⟩, ⟨some ⟨"x"⟩, "T", ⟨"a"⟩, 0⟩, ⟨none, "T", ⟨"b"⟩, 1⟩,
        ⟨some ⟨"b"⟩, "T", ⟨"a"⟩, 2⟩],
      [.point ⟨"z"⟩ "w" .string (.ofText ""), .point ⟨"a"⟩ "u" .string (.ofText "2"),
        .point ⟨"b"⟩ "v" .string (.ofText "3"), .point ⟨"a"⟩ "u" .string .null,
        .point ⟨"b"⟩ "v" .long .null, .edit ⟨"a"⟩ "u" .reference .null (.ofText "c")]⟩
    let w := ofSnapshot s
    let c := Catalog.ofSnapshot s
    w.committed.nodes[(⟨"a"⟩ : Ident)]? = some ⟨some ⟨"b"⟩, "T", ⟨"a"⟩, 2⟩ ∧
    w.committed.value ⟨⟨"a"⟩, "u"⟩ = .ofText "c" ∧ w.committed.value ⟨⟨"a"⟩, "u"⟩ ≠ .null ∧
    w.committed.properties[(⟨⟨"a"⟩, "u"⟩ : Property.Key)]?.map Property.type = some .reference ∧
    c.value? ⟨⟨"b"⟩, "v"⟩ = some .null ∧ w.committed.value ⟨⟨"b"⟩, "v"⟩ = .null ∧
    w.committed.value ⟨⟨"z"⟩, "w"⟩ = .ofText "" ∧
    w.snapshot.nodes.map Node.id = [⟨"a"⟩, ⟨"b"⟩, ⟨"c"⟩] ∧
    w.snapshot.properties.map Property.key = [⟨⟨"a"⟩, "u"⟩, ⟨⟨"z"⟩, "w"⟩] ∧
    w.snapshot.properties.Pairwise fun p q => compare p.key q.key = .lt := by
  intro s w c
  obtain ⟨hnodes, hvalues, -, -, -, hsorted⟩ := reads_as_catalog s
  have hname : c.value? ⟨⟨"a"⟩, "u"⟩ = some (.ofText "c") := by decide +kernel
  have hnull : c.value? ⟨⟨"b"⟩, "v"⟩ = some .null := by decide +kernel
  have horphan : c.value? ⟨⟨"z"⟩, "w"⟩ = some (.ofText "") := by decide +kernel
  have hu : w.committed.value ⟨⟨"a"⟩, "u"⟩ = .ofText "c" := by rw [(hvalues _).1, hname]; rfl
  have hne : w.committed.value ⟨⟨"a"⟩, "u"⟩ ≠ .null := by rw [hu]; decide
  refine ⟨(hnodes _).1.trans (by decide +kernel), hu, hne,
    ((hvalues _).2.1 hne).trans (by decide +kernel), hnull, ?_, ?_, by decide +kernel,
    by decide +kernel, hsorted⟩
  · rw [(hvalues _).1, hnull]
    rfl
  · rw [(hvalues _).1, horphan]
    rfl

end Workspace

end GraphDelta
