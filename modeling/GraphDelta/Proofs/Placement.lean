/-
**What objects are shown under.**

An outline puts an added object where it is in the new snapshot, and any other one where it was in the
old snapshot.  Taken together these are pointers from object to object, which an outline follows from
every changed object up to the root.

If the two snapshots fit together, then the parents of a changed object in its own snapshot — the new
one for an added object, the old one for a removed or an edited one — are among these pointers: nothing
above a removed or edited object is added, and whatever the new snapshot holds and a comparison does not
add is in the old one as well.  The converse fails where a parent is missing, as the pointers may go on
over an object of the other snapshot.

Main definitions:

* `upTo` — pointers that go no further than the root;
* `Passes` — what the way from an object to the root comes by, and how far from the root;
* `Comparison.shownUnder?` — what an outline shows an object under;
* `Comparison.parentFor?` — the parent of an object in the snapshot in which a change has its place;
* `Comparison.Steady` — nothing from an object on upwards is added, unless the change is an addition.

Main results:

* `leadsOn_upTo_iff` — what leads to the root on such pointers;
* `Comparison.steady_of_changes`, `Comparison.Steady.step` — **a changed object is shown under its
  parents**, as far as they go;
* `Comparison.follow_parentFor?` — if its parents lead to the root, there is one way to it.
-/
import GraphDelta.Proofs.Convergence
import GraphDelta.Proofs.Shape

set_option autoImplicit false

namespace GraphDelta

variable {next next' : Ident → Option Ident} {root x y z : Ident} {j k : Nat}

/-! ### Pointers up to the root -/

/-- Pointers that go no further than the root. -/
def upTo (root : Ident) (next : Ident → Option Ident) (x : Ident) : Option Ident :=
  if x = root then none else next x

theorem upTo_root : upTo root next root = none := if_pos rfl

theorem upTo_eq_some_iff : upTo root next x = some y ↔ x ≠ root ∧ next x = some y := by
  rw [upTo]
  split
  · rename_i hx
    exact iff_of_false (Option.some_ne_none y).symm fun h => h.1 hx
  · rename_i hx
    exact (and_iff_right hx).symm

theorem eq_some_of_upTo (a b : Ident) (h : upTo root next a = some b) : next a = some b :=
  (upTo_eq_some_iff.1 h).2

/-- The pointers lead from an object to the root as they would if they went on. -/
theorem leadsOn_upTo_iff : LeadsOn (upTo root next) x root ↔ x ≠ root ∧ Leads next x root := by
  constructor
  · intro h
    obtain ⟨a, ha, -⟩ := leadsOn_iff.1 h
    exact ⟨(upTo_eq_some_iff.1 ha).1, h.leads.mono eq_some_of_upTo⟩
  · rintro ⟨hx, k, hk⟩
    -- induction on the distance, up to the first time that the root comes up
    induction k generalizing x with
    | zero => exact absurd (Option.some_inj.1 hk) hx
    | succ k ih =>
        obtain ⟨a, ha, hak⟩ := Option.bind_eq_some_iff.1 hk
        refine leadsOn_iff.2 ⟨a, upTo_eq_some_iff.2 ⟨hx, ha⟩, ?_⟩
        by_cases har : a = root
        · exact har ▸ .refl a
        · exact (ih har hak).leads

/-- The way from `x` up to the root comes by `y`, and `k` identifiers stand between `y` and the root. -/
def Passes (next : Ident → Option Ident) (root x y : Ident) (k : Nat) : Prop :=
  Leads (upTo root next) x y ∧ follow (upTo root next) (k + 1) y = some root

theorem Passes.leadsOn (h : Passes next root x y k) : LeadsOn (upTo root next) x root := by
  rcases leads_iff.1 h.1 with rfl | hon
  · exact ⟨k, h.2⟩
  · exact hon.trans_leads ⟨k + 1, h.2⟩

theorem exists_passes_self (h : LeadsOn (upTo root next) x root) : ∃ k, Passes next root x x k := by
  obtain ⟨k, hk⟩ := h
  exact ⟨k, .refl x, hk⟩

/-! ### Pointers that agree -/

/-- Pointers that agree with others wherever they go lead where the others do. -/
theorem follow_of_agree (agrees : Ident → Prop)
    (hstep : ∀ a b, agrees a → next a = some b → next' a = some b ∧ agrees b) (hx : agrees x)
    (h : follow next k x = some y) : follow next' k x = some y ∧ agrees y := by
  induction k generalizing x with
  | zero =>
      cases h
      exact ⟨rfl, hx⟩
  | succ k ih =>
      obtain ⟨a, ha, hak⟩ := Option.bind_eq_some_iff.1 h
      obtain ⟨ha', hagrees⟩ := hstep x a hx ha
      rw [follow_succ, ha']
      exact ih hagrees hak

/-- If they lead to the root, and the others go no further than that, both have the same way. -/
theorem follow_eq_of_agree (h : ∀ k y, follow next k x = some y → follow next' k x = some y)
    (hx : Leads next x root) (hroot : next' root = none) (k : Nat) :
    follow next k x = follow next' k x := by
  cases hk : follow next k x with
  | some y => exact (h k y hk).symm
  | none =>
      obtain ⟨i, hi⟩ := hx
      have hlt := (follow_eq_none_after hk hi).1
      have hend : follow next' (i + 1) x = none := by
        rw [follow_succ_right, h i root hi]
        exact hroot
      exact (follow_eq_none_of_le hend hlt).symm

/-- What the way to the root comes by can be told from the way. -/
theorem passes_iff_follow : Passes next root x y k ↔ ∃ i, follow (upTo root next) i x = some y ∧
    follow (upTo root next) (i + (k + 1)) x = some root := by
  constructor
  · rintro ⟨⟨i, hi⟩, hk⟩
    exact ⟨i, hi, by rw [follow_add, hi]; exact hk⟩
  · rintro ⟨i, hi, hik⟩
    rw [follow_add, hi] at hik
    exact ⟨⟨i, hi⟩, hik⟩

/-! ### Parents and pointers -/

namespace Comparison

open Outline (Status Changes home)

variable {old new : Snapshot} {c : Comparison} {st : Status} {n : Node} {p : Property}

/-- What an outline shows an object under: its new parent if it is added, and else its old one. -/
def shownUnder? (c : Comparison) (x : Ident) : Option Ident :=
  if c.delta.adds x then c.new.nodes.parent? x else c.old.nodes.parent? x

/-- The parent of an object in the snapshot in which a change has its place. -/
def parentFor? (c : Comparison) : Status → Ident → Option Ident
  | .added => c.new.nodes.parent?
  | .same | .removed | .edited => c.old.nodes.parent?

theorem parentFor?_of_ne (c : Comparison) (hst : st ≠ .added) :
    c.parentFor? st = c.old.nodes.parent? := by
  cases st with
  | added => exact absurd rfl hst
  | same | removed | edited => rfl

/-- The change is an addition, or no object of the old snapshot is added from `x` on upwards. -/
def Steady (c : Comparison) (st : Status) (x : Ident) : Prop :=
  st = .added ∨ ∀ z ∈ c.old.nodes, Leads c.old.nodes.parent? x z → c.delta.adds z = false

/-- A changed object itself is shown under its parent. -/
theorem shownUnder?_of_changes (hx : Changes c.delta x st) : c.shownUnder? x = c.parentFor? st x := by
  cases st with
  | same => exact hx.elim
  | added => exact if_pos hx
  | removed => exact if_neg (Bool.eq_false_iff.1 hx.1)
  | edited => exact if_neg (Bool.eq_false_iff.1 hx.1)

theorem isKnown_of_shownUnder? (hy : c.shownUnder? x = some y) : c.IsKnown x := by
  rw [shownUnder?] at hy
  split at hy
  · exact .inr (NodeMap.mem_of_parent? hy)
  · exact .inl (NodeMap.mem_of_parent? hy)

section

variable (hc : fresh.compare old new = (.ok (), c))

include hc

theorem getElem?_old_of_new (hno : c.delta.adds x = false) (hn : c.new.nodes[x]? = some n) :
    c.old.nodes[x]? = some n := by
  obtain ⟨d, hd, rfl⟩ := compare_eq_ok_iff.1 hc
  exact Delta.getElem?_old_of_not_adds (NodeMap.filed_ofList new.nodes) hd (Bool.not_eq_true _ ▸ hno) hn

theorem mem_new_of_adds (hx : c.delta.adds x = true) : x ∈ c.new.nodes := by
  obtain ⟨d, hd, rfl⟩ := compare_eq_ok_iff.1 hc
  exact (Derived.compared hc).mem_objects.2 x hx

theorem mem_old_of_known (hx : Changes c.delta x st) (hst : st ≠ .added)
    (hknown : st = .edited → c.IsKnown x) : x ∈ c.old.nodes := by
  cases st with
  | same => exact hx.elim
  | added => exact absurd rfl hst
  | removed =>
      obtain ⟨-, r, hr, rfl⟩ := hx
      obtain ⟨d, -, rfl⟩ := compare_eq_ok_iff.1 hc
      exact (Derived.compared hc).mem_objects.1 r hr
  | edited =>
      rcases hknown rfl with hold | hnew
      · exact hold
      · obtain ⟨n, hn⟩ := NodeMap.mem_iff_exists.1 hnew
        exact NodeMap.mem_of_getElem?_eq_some (getElem?_old_of_new hc hx.1 hn)

/-- An object of the new snapshot is shown under its new parent. -/
theorem shownUnder?_of_mem_new (hx : x ∈ c.new.nodes) : c.shownUnder? x = c.new.nodes.parent? x := by
  rw [shownUnder?]
  split
  · rfl
  · rename_i hno
    obtain ⟨n, hn⟩ := NodeMap.mem_iff_exists.1 hx
    rw [Bool.not_eq_true] at hno
    rw [NodeMap.parent?, NodeMap.parent?, hn, getElem?_old_of_new hc hno hn]

theorem shownUnder?_of_node? (hno : c.delta.adds x = false) (hn : c.node? x = some n) :
    c.shownUnder? x = n.parent := by
  have hold : c.old.nodes[x]? = some n :=
    (Outline.Sketch.mem_of_node? hn).elim id fun h => getElem?_old_of_new hc hno h.2
  rw [shownUnder?, hno, if_neg Bool.false_ne_true, NodeMap.parent?, hold]
  rfl

variable (h : old.Compatible new)

include h

theorem adds_iff_takes (hold : x ∈ c.old.nodes) (hnew : x ∈ c.new.nodes) :
    c.delta.adds x = true ↔ c.delta.Takes c.old.nodes x := by
  obtain ⟨d, hd, rfl⟩ := compare_eq_ok_iff.1 hc
  exact Delta.adds_iff_takes (NodeMap.filed_ofList old.nodes) (NodeMap.filed_ofList new.nodes) hd
    h.old_treelike.acyclic h.anchored hold hnew

theorem owner_mem_new (hp : p ∈ c.delta.edits) : p.owner ∈ c.new.nodes := by
  obtain ⟨d, hd, rfl⟩ := compare_eq_ok_iff.1 hc
  have hedited := (Delta.mem_edits (PropertyMap.filed_ofList old.properties)
    (PropertyMap.filed_ofList new.properties) hd).1 hp
  generalize hk : p.key = k at hedited
  have howner : p.owner = k.owner := congrArg Property.Key.owner hk
  cases hedited with
  | gone _ _ hmem => exact hmem
  | fresh _ hq => exact howner ▸ h.new_owned.owner_mem hq
  | changed _ hq _ => exact howner ▸ h.new_owned.owner_mem hq
  | rebuilt _ hq _ _ => exact howner ▸ h.new_owned.owner_mem hq

theorem exists_of_edited (hx : Changes c.delta x .edited) :
    ∃ n, c.old.nodes[x]? = some n ∧ c.new.nodes[x]? = some n := by
  obtain ⟨hno, -, p, hp, rfl⟩ := hx
  obtain ⟨n, hn⟩ := NodeMap.mem_iff_exists.1 (owner_mem_new hc h hp)
  exact ⟨n, getElem?_old_of_new hc hno hn, hn⟩

theorem mem_old_of_changes (hx : Changes c.delta x st) (hst : st ≠ .added) : x ∈ c.old.nodes := by
  refine mem_old_of_known hc hx hst fun hedited => ?_
  subst hedited
  obtain ⟨n, hn, -⟩ := exists_of_edited hc h hx
  exact .inl (NodeMap.mem_of_getElem?_eq_some hn)

theorem not_takes_of_changes (hx : Changes c.delta x st) (hst : st ≠ .added)
    (hon : LeadsOn c.old.nodes.parent? x z) : ¬ c.delta.Takes c.old.nodes z := by
  rintro ⟨r', hr', hzr'⟩
  cases st with
  | same => exact hx.elim
  | added => exact hst rfl
  | removed =>
      obtain ⟨-, r, hr, rfl⟩ := hx
      obtain ⟨d, hd, rfl⟩ := compare_eq_ok_iff.1 hc
      have ho : (Catalog.ofSnapshot old).nodes.Filed := NodeMap.filed_ofList old.nodes
      have heq : r.id = r'.id := Delta.eq_of_leads_topmost (.refl r.id) (hon.leads.trans hzr')
        ((Delta.mem_removals ho hd).1 hr).2 ((Delta.mem_removals ho hd).1 hr').2
      exact h.old_treelike.acyclic r.id (heq ▸ hon.trans_leads hzr')
  | edited =>
      obtain ⟨n, hn, hn'⟩ := exists_of_edited hc h hx
      have hadds := (adds_iff_takes hc h (NodeMap.mem_of_getElem?_eq_some hn)
        (NodeMap.mem_of_getElem?_eq_some hn')).2 ⟨r', hr', hon.leads.trans hzr'⟩
      exact Bool.false_ne_true (hx.1.symm.trans hadds)

/-- What is above a removed or an edited object is in both snapshots, with one record. -/
theorem exists_of_above (hx : Changes c.delta x st) (hst : st ≠ .added)
    (hon : LeadsOn c.old.nodes.parent? x z) (hz : z ∈ c.old.nodes) :
    c.delta.adds z = false ∧ ∃ n, c.old.nodes[z]? = some n ∧ c.new.nodes[z]? = some n := by
  have hno : ¬ c.delta.Takes c.old.nodes z := not_takes_of_changes hc h hx hst hon
  have hnew : z ∈ c.new.nodes := by
    by_contra hgone
    obtain ⟨d, hd, rfl⟩ := compare_eq_ok_iff.1 hc
    refine hno (Delta.takes_of_cascades (NodeMap.filed_ofList old.nodes) hd h.old_treelike.acyclic ?_)
    exact Delta.cascades_of_gone hz hgone
  have hadds : c.delta.adds z = false :=
    Bool.eq_false_iff.2 fun hadd => hno ((adds_iff_takes hc h hz hnew).1 hadd)
  obtain ⟨n, hn⟩ := NodeMap.mem_iff_exists.1 hnew
  exact ⟨hadds, n, getElem?_old_of_new hc hadds hn, hn⟩

/-- **Nothing above a removed or an edited object is added.** -/
theorem steady_of_changes (hx : Changes c.delta x st) : c.Steady st x := by
  by_cases hst : st = .added
  · exact .inl hst
  · refine .inr fun z hz hxz => ?_
    rcases leads_iff.1 hxz with rfl | hon
    · cases st with
      | same => exact hx.elim
      | added => exact absurd rfl hst
      | removed => exact hx.1
      | edited => exact hx.1
    · exact (exists_of_above hc h hx hst hon hz).1

omit h in
/-- The parent of such an object is what it is shown under, and the same holds of the parent. -/
theorem Steady.step (hx : c.Steady st x) (hy : c.parentFor? st x = some y) :
    c.shownUnder? x = some y ∧ c.Steady st y := by
  by_cases hst : st = .added
  · subst hst
    rw [shownUnder?_of_mem_new hc (NodeMap.mem_of_parent? hy)]
    exact ⟨hy, .inl rfl⟩
  · have hold : c.old.nodes.parent? x = some y := parentFor?_of_ne c hst ▸ hy
    have hx := hx.resolve_left hst
    refine ⟨?_, .inr fun z hz hyz => hx z hz (leadsOn_iff.2 ⟨y, hold, hyz⟩).leads⟩
    rw [shownUnder?, hx x (NodeMap.mem_of_parent? hold) (.refl x)]
    exact hold

/-- A changed object has its place in the snapshot that its parents are taken from. -/
theorem parent?_home (hx : Changes c.delta x st) : (home c x st).parent? = c.parentFor? st := by
  cases st with
  | same => rfl
  | removed => rfl
  | added => rfl
  | edited =>
      have hmem : c.old.nodes.contains x = true :=
        Std.ExtTreeMap.mem_iff_contains.1 (mem_old_of_changes hc h hx nofun)
      rw [home, hmem]
      rfl

/-- The parents of a changed object lead where the pointers of the outline do. -/
theorem follow_shownUnder? (hx : Changes c.delta x st)
    (hk : follow (upTo root (c.parentFor? st)) k x = some y) :
    follow (upTo root c.shownUnder?) k x = some y := by
  refine (follow_of_agree (c.Steady st) ?_ (steady_of_changes hc h hx) hk).1
  intro a b ha hab
  obtain ⟨har, hab⟩ := upTo_eq_some_iff.1 hab
  obtain ⟨hb, hsteady⟩ := Steady.step hc ha hab
  exact ⟨upTo_eq_some_iff.2 ⟨har, hb⟩, hsteady⟩

/-- **A changed object whose parents lead to the root is shown under its parents.** -/
theorem follow_parentFor? (hx : Changes c.delta x st)
    (hroot : LeadsOn (upTo root (c.parentFor? st)) x root) (k : Nat) :
    follow (upTo root (c.parentFor? st)) k x = follow (upTo root c.shownUnder?) k x :=
  follow_eq_of_agree (fun _ _ hk => follow_shownUnder? hc h hx hk) hroot.leads upTo_root k

end

end Comparison

end GraphDelta
