/-
**Which properties a comparison edits.**

A property is edited for one of four reasons: only the new catalog has it, only the old one has it and
its object stays, both have it with different values, or both have it with one value and its object is
rebuilt.  Each key is edited at most once.

Main definitions:

* `PropertyMap.Filed` — every property is filed under its own key;
* `Delta.Edited` — the reasons for an edit.

Main results:

* `Delta.edit?_eq_some_iff` — an edit has one of these reasons;
* `Delta.mem_edits`, `Delta.pairwise_edits`, `Delta.nodup_edits` — **the edits of a difference**;
* `Delta.eq_of_unedited` — what can be said of a property that is not edited.
-/
import GraphDelta.Proofs.Additions

set_option autoImplicit false

namespace GraphDelta

variable {o c : Catalog} {d : Delta} {f : Forest} {k : Property.Key} {p q e : Property}

/-- Every property is filed under its own key. -/
def PropertyMap.Filed (m : PropertyMap) : Prop :=
  ∀ (k : Property.Key) (p : Property), m[k]? = some p → p.key = k

theorem PropertyMap.filed_ofList (ps : List Property) : (ofList ps).Filed :=
  fun _ _ => key_of_getElem?_ofList

namespace Delta

/-- The reasons for an edit of the property of a key: it comes, it goes and its object stays, its value
changes, or its value stays and its object is rebuilt. -/
inductive Edited (o c : Catalog) (k : Property.Key) : Property → Prop
  | fresh {q : Property} : o.properties[k]? = none → c.properties[k]? = some q →
      Edited o c k {
        owner := q.owner, name := q.name, type := q.type
        before := .null, after := q.after, isEdit := true }
  | gone {p : Property} : o.properties[k]? = some p → c.properties[k]? = none →
      p.owner ∈ c.nodes → Edited o c k {
        owner := p.owner, name := p.name, type := p.type
        before := p.after, after := .null, isEdit := true }
  | changed {p q : Property} : o.properties[k]? = some p → c.properties[k]? = some q →
      p.sameValue q = false → Edited o c k {
        owner := q.owner, name := q.name, type := q.type
        before := p.after, after := q.after, isEdit := true }
  | rebuilt {p q : Property} : o.properties[k]? = some p → c.properties[k]? = some q →
      p.sameValue q = true → IsRebuilt o.nodes c.nodes q.owner → Edited o c k {
        owner := q.owner, name := q.name, type := q.type
        before := q.after, after := q.after, isEdit := true }

theorem edit?_eq_some_iff (hf : newForest o.nodes c.nodes = .ok f) :
    edit? (rebuiltIds f o.nodes c.nodes) o c k = some e ↔ Edited o c k e := by
  have hrebuilt (x : Ident) : (rebuiltIds f o.nodes c.nodes).contains x = true ↔
      IsRebuilt o.nodes c.nodes x := by
    rw [Std.ExtTreeSet.contains_iff_mem, mem_rebuiltIds hf]
  constructor
  · intro h
    rw [edit?] at h
    split at h
    · rename_i q ho hc
      cases h
      exact .fresh ho hc
    · rename_i p ho hc
      split at h
      · rename_i hmem
        cases h
        exact .gone ho hc (Std.ExtTreeMap.mem_iff_contains.2 hmem)
      · cases h
    · rename_i p q ho hc
      split at h
      · rename_i hne
        cases h
        rw [Bool.not_eq_true'] at hne
        exact .changed ho hc hne
      · rename_i hsame
        split at h
        · rename_i hr
          cases h
          rw [Bool.not_eq_true', Bool.not_eq_false] at hsame
          exact .rebuilt ho hc hsame ((hrebuilt _).1 hr)
        · cases h
    · cases h
  · intro h
    rw [edit?]
    cases h with
    | fresh ho hc =>
        rw [ho, hc]
        rfl
    | gone ho hc hmem =>
        rw [ho, hc]
        exact if_pos (Std.ExtTreeMap.mem_iff_contains.1 hmem)
    | changed ho hc hne =>
        rw [ho, hc]
        simp only [hne, Bool.not_false, if_true]
        rfl
    | rebuilt ho hc hsame hr =>
        rw [ho, hc]
        simp only [hsame, (hrebuilt _).2 hr, Bool.not_true, Bool.false_eq_true, if_false, if_true]
        rfl

theorem Edited.key_eq (ho : o.properties.Filed) (hc : c.properties.Filed) (h : Edited o c k e) :
    e.key = k := by
  cases h with
  | fresh _ hq => exact (hc k _ hq :)
  | gone hp _ _ => exact (ho k _ hp :)
  | changed _ hq _ => exact (hc k _ hq :)
  | rebuilt _ hq _ _ => exact (hc k _ hq :)

theorem Edited.isEdit (h : Edited o c k e) : e.isEdit = true := by
  cases h <;> rfl

theorem Edited.mem_allKeys (h : Edited o c k e) : k ∈ allKeys o c := by
  have hmem {m : PropertyMap} {p : Property} (hp : m[k]? = some p) : k ∈ m := by
    rw [Std.ExtTreeMap.mem_iff_isSome_getElem?, hp]
    rfl
  rw [allKeys, Std.ExtTreeMap.mem_keys, Std.ExtTreeMap.mem_union_iff]
  cases h with
  | fresh _ hq => exact .inr (hmem hq)
  | gone hp _ _ => exact .inl (hmem hp)
  | changed hp _ _ => exact .inl (hmem hp)
  | rebuilt hp _ _ _ => exact .inl (hmem hp)

/-- **The edits of a difference** are those for which there is a reason. -/
theorem mem_edits (ho : o.properties.Filed) (hc : c.properties.Filed) (h : between o c = .ok d) :
    e ∈ d.edits ↔ Edited o c e.key e := by
  obtain ⟨f, lists, hf, -, rfl⟩ := between_eq_ok_iff.1 h
  rw [List.mem_filterMap]
  constructor
  · rintro ⟨k, -, hk⟩
    have hedited := (edit?_eq_some_iff hf).1 hk
    exact (hedited.key_eq ho hc).symm ▸ hedited
  · intro hedited
    exact ⟨e.key, hedited.mem_allKeys, (edit?_eq_some_iff hf).2 hedited⟩

theorem pairwise_edits (ho : o.properties.Filed) (hc : c.properties.Filed)
    (h : between o c = .ok d) : d.edits.Pairwise fun e e' => compare e.key e'.key = .lt := by
  obtain ⟨f, lists, hf, -, rfl⟩ := between_eq_ok_iff.1 h
  have hkeys : (allKeys o c).Pairwise fun k k' => compare k k' = .lt := Std.ExtTreeMap.ordered_keys
  refine List.pairwise_map.1 (hkeys.sublist (map_filterMap_sublist ?_ _))
  intro k e he
  exact ((edit?_eq_some_iff hf).1 he).key_eq ho hc

/-- **No key is edited twice.** -/
theorem nodup_edits (ho : o.properties.Filed) (hc : c.properties.Filed) (h : between o c = .ok d) :
    (d.edits.map Property.key).Nodup := by
  refine List.pairwise_map.2 ((pairwise_edits ho hc h).imp fun {e e'} hlt heq => ?_)
  rw [heq, Std.ReflOrd.compare_self] at hlt
  cases hlt

/-- A property that is not edited is in neither catalog, or goes with its object, or has one value in
both and an object that is not rebuilt. -/
theorem eq_of_unedited (h : ∀ e, ¬ Edited o c k e) :
    (o.properties[k]? = none ∧ c.properties[k]? = none) ∨
    (∃ p, o.properties[k]? = some p ∧ c.properties[k]? = none ∧ p.owner ∉ c.nodes) ∨
    (∃ p q, o.properties[k]? = some p ∧ c.properties[k]? = some q ∧ p.sameValue q = true ∧
      ¬ IsRebuilt o.nodes c.nodes q.owner) := by
  cases ho : o.properties[k]? with
  | none =>
      cases hc : c.properties[k]? with
      | none => exact .inl ⟨rfl, rfl⟩
      | some q => exact absurd (.fresh ho hc) (h _)
  | some p =>
      cases hc : c.properties[k]? with
      | none => exact .inr (.inl ⟨p, rfl, rfl, fun hmem => h _ (.gone ho hc hmem)⟩)
      | some q =>
          have hsame : p.sameValue q = true := by
            by_contra hne
            exact h _ (.changed ho hc (Bool.eq_false_iff.2 hne))
          exact .inr (.inr ⟨p, q, rfl, rfl, hsame, fun hr => h _ (.rebuilt ho hc hsame hr)⟩)

end Delta

end GraphDelta
