/-
**Growing a forest.**

A forest can be grown object by object.  It begins with the root above the first object.  Then every
object is visited, in ascending order: the climb from it ends at the first object that has a place
already, and what the climb has passed is attached, what is nearest to the root first.  An object is
attached under its parent, if that has a place, and as another root otherwise.  In the end the children of
each object are sorted.

One step gives a place to an object whose parent, if it is present, has one.  Such a step keeps roots,
children and places in accord with the parents that the objects name, and so does every visit, as what
has a place is closed upwards.  A climb that runs into a cycle meets nothing that has a place: it fails as
the climb to the top would fail.  So the growth and the forest of the map end alike.

Main definitions:

* `Growth` — a forest in the making, with `Growth.attach`, `Growth.visit` and `Growth.ofMap`;
* `Growth.Sound` — roots, children and places accord with the parents of the objects;
* `Growth.Reached` — what holds of the growth when some objects have been visited;
* `Growth.Shows` — a growth and a forest show the same.

Main results:

* `Growth.Sound.attach` — a step keeps the accord;
* `Growth.Reached.endsAlike_visit` — **a visit goes along with the climb to the top**;
* `Growth.endsAlike_ofMap` — **the growth and the forest of the map end alike**;
* `Forest.ofMap_rebuilds` — **what the forest of a list of objects is, and when there is none**.
-/
import GraphDelta.Proofs.Difference

set_option autoImplicit false

namespace GraphDelta

/-- A forest in the making. -/
structure Growth where
  registered : Std.ExtTreeSet Ident
  roots : List Ident
  /-- The objects that are attached under each one. -/
  branches : Std.ExtTreeMap Ident (List Ident)

/-- Siblings are compared by place, and then by identifier. -/
def NodeMap.compareSiblings (m : NodeMap) : Ident → Ident → Ordering :=
  compareLex (compareOn fun id => m[id]?.map Node.index) compare

namespace NodeMap

variable {m : NodeMap} {a b : Ident}

instance : Std.TransCmp m.compareSiblings :=
  inferInstanceAs (Std.TransCmp (compareLex (compareOn fun id => m[id]?.map Node.index) compare))

theorem eq_of_compareSiblings (hab : (m.compareSiblings a b).isLE) (hba : (m.compareSiblings b a).isLE) :
    a = b := by
  have heq : m.compareSiblings a b = .eq := Std.OrientedCmp.isLE_antisymm hab hba
  exact Std.LawfulEqOrd.eq_of_compare (compareLex_eq_eq.1 heq).2

theorem Before.isLE_compareSiblings (h : m.Before a b) : (m.compareSiblings a b).isLE := by
  obtain ⟨p, q, hp, hq, h⟩ := h
  have hindex : compareOn (fun id => m[id]?.map Node.index) a b = compare p.index q.index := by
    rw [compareOn, hp, hq]
    rfl
  rw [compareSiblings, compareLex, hindex, Ordering.isLE_then_iff_or, Std.compare_eq_lt,
    Std.LawfulEqOrd.compare_eq_iff_eq]
  exact h.imp_right fun ⟨heq, hlt⟩ => ⟨heq, by rw [hlt]; rfl⟩

end NodeMap

namespace Growth

/-! ### The growth -/

def empty : Growth := ⟨∅, [], ∅⟩

def start (root : Ident) : Growth := ⟨Std.ExtTreeSet.insert ∅ root, [root], ∅⟩

/-- What is attached under an object; the roots are under none. -/
def under (g : Growth) : Option Ident → List Ident
  | none => g.roots
  | some p => g.branches[p]?.getD []

/-- The parent of an object, if it has a place. -/
def parent? (m : NodeMap) (g : Growth) (id : Ident) : Option Ident :=
  (m.parent? id).filter fun p => g.registered.contains p

/-- Attaches an object under its parent, if that has a place, and as a root otherwise. -/
def attach (m : NodeMap) (g : Growth) (id : Ident) : Growth :=
  match parent? m g id with
  | some p => ⟨g.registered.insert id, g.roots, g.branches.insert p (g.under (some p) ++ [id])⟩
  | none => ⟨g.registered.insert id, g.roots ++ [id], g.branches⟩

/-- Attaches an object and what is above it, as far as that has no place, from the top down. -/
def visit (m : NodeMap) (g : Growth) (id : Ident) : Except Fault Growth :=
  match m.climb m.presentParent? (fun x => g.registered.contains x) .empty id with
  | .top path => .ok (path.foldl (attach m) g)
  | .stopped _ path => .ok (path.foldl (attach m) g)
  | .looped entry => .error (.cycle entry)

def sort (m : NodeMap) (g : Growth) : Growth :=
  { g with branches := g.branches.map fun _ ids =>
      stableSort (fun a b => (m.compareSiblings a b).isLE) ids }

/-- Visits the objects of a map in ascending order, after the root above the first one has got its
place. -/
def ofMap (m : NodeMap) : Except Fault Growth :=
  match m.keys with
  | [] => .ok empty
  | first :: ids => do
    let root ← m.topOf first
    let g ← (first :: ids).foldlM (visit m) (start root)
    return g.sort m

/-! ### One step -/

variable {m : NodeMap} {g : Growth} {s t x y z : Ident} {path seen tops : List Ident}

@[simp] theorem mem_registered_attach :
    y ∈ (attach m g x).registered ↔ y = x ∨ y ∈ g.registered := by
  rw [attach, eq_comm]
  split <;> simp

/-- A step attaches an object in one place. -/
theorem under_attach (o : Option Ident) : (attach m g x).under o =
    if parent? m g x = o then g.under o ++ [x] else g.under o := by
  rw [attach]
  cases hp : parent? m g x with
  | none => cases o <;> simp [under]
  | some p =>
      cases o with
      | none => simp [under]
      | some q =>
          by_cases hpq : p = q
          · subst hpq
            simp [under]
          · simp [under, Std.ExtTreeMap.getElem?_insert, hpq]

theorem attach_empty : attach m empty x = start x := by
  have hp : parent? m empty x = none := by simp [parent?, empty]
  rw [attach, hp]
  rfl

/-- Roots, children and places accord with the parents of the objects. -/
structure Sound (m : NodeMap) (g : Growth) : Prop where
  mem : ∀ x ∈ g.registered, x ∈ m
  ends : ∀ x ∈ g.registered, Ends m.presentParent? x
  parent_mem : ∀ x ∈ g.registered, ∀ p, m.presentParent? x = some p → p ∈ g.registered
  mem_under : ∀ o x, x ∈ g.under o ↔ x ∈ g.registered ∧ m.presentParent? x = o
  nodup_under : ∀ o, (g.under o).Nodup

namespace Sound

theorem empty : Sound m empty := by
  constructor
  case mem_under | nodup_under =>
    intro o
    cases o <;> simp [Growth.empty, under]
  all_goals simp [Growth.empty]

theorem mem_of_leads (h : Sound m g) (hx : x ∈ g.registered) (hxy : Leads m.presentParent? x y) :
    y ∈ g.registered := by
  obtain ⟨k, hk⟩ := hxy
  induction k generalizing x with
  | zero => exact Option.some_inj.1 hk ▸ hx
  | succ k ih =>
      obtain ⟨a, ha, hay⟩ := Option.bind_eq_some_iff.1 hk
      exact ih (h.parent_mem x hx a ha) hay

theorem parent?_eq (h : Sound m g) (hp : ∀ p, m.presentParent? x = some p → p ∈ g.registered) :
    parent? m g x = m.presentParent? x := by
  refine Option.ext fun p => ?_
  rw [parent?, NodeMap.presentParent?_eq_some_iff, Option.filter_eq_some_iff,
    ← Std.ExtTreeSet.mem_iff_contains]
  constructor
  · rintro ⟨hxp, hpg⟩
    exact ⟨hxp, h.mem p hpg⟩
  · rintro ⟨hxp, hpm⟩
    exact ⟨hxp, hp p (NodeMap.presentParent?_eq_some_iff.2 ⟨hxp, hpm⟩)⟩

/-- **A step keeps the accord**: it gives a place to an object whose parent has one, if it is
present. -/
theorem attach (h : Sound m g) (hx : x ∉ g.registered) (hxm : x ∈ m)
    (hp : ∀ p, m.presentParent? x = some p → p ∈ g.registered) : Sound m (attach m g x) where
  mem y hy := by
    rcases mem_registered_attach.1 hy with rfl | hy
    · exact hxm
    · exact h.mem y hy
  ends y hy := by
    rcases mem_registered_attach.1 hy with rfl | hy
    · cases hq : m.presentParent? y with
      | none => exact .of_eq_none hq
      | some q => exact .of_leads (.single hq) (h.ends q (hp q hq))
    · exact h.ends y hy
  parent_mem y hy q hq := by
    rw [mem_registered_attach] at hy ⊢
    rcases hy with rfl | hy
    · exact .inr (hp q hq)
    · exact .inr (h.parent_mem y hy q hq)
  mem_under o y := by
    rw [under_attach, h.parent?_eq hp, mem_registered_attach]
    by_cases ho : m.presentParent? x = o
    · rw [if_pos ho, List.mem_append, List.mem_singleton, h.mem_under]
      constructor
      · rintro (⟨hy, hyo⟩ | rfl)
        · exact ⟨.inr hy, hyo⟩
        · exact ⟨.inl rfl, ho⟩
      · rintro ⟨rfl | hy, hyo⟩
        · exact .inr rfl
        · exact .inl ⟨hy, hyo⟩
    · rw [if_neg ho, h.mem_under]
      constructor
      · rintro ⟨hy, hyo⟩
        exact ⟨.inr hy, hyo⟩
      · rintro ⟨rfl | hy, hyo⟩
        · exact absurd hyo ho
        · exact ⟨hy, hyo⟩
  nodup_under o := by
    have hnew : x ∉ g.under o := fun hmem => hx ((h.mem_under o x).1 hmem).1
    rw [under_attach]
    split
    · rw [List.nodup_append_comm]
      exact List.nodup_cons.2 ⟨hnew, h.nodup_under o⟩
    · exact h.nodup_under o

/-- A path is attached from the top down.  A root is new if the path ends at the top. -/
theorem foldl_attach (h : Sound m g) (hpath : Climbed m.presentParent? s path z) (hzm : z ∈ m)
    (hp : ∀ p, m.presentParent? z = some p → p ∈ g.registered)
    (hfresh : ∀ y ∈ z :: path, y ∉ g.registered) :
    Sound m ((z :: path).foldl (Growth.attach m) g) ∧
      ((z :: path).foldl (Growth.attach m) g).roots =
        (if m.presentParent? z = none then g.roots ++ [z] else g.roots) ∧
      ∀ y, y ∈ ((z :: path).foldl (Growth.attach m) g).registered ↔
        y ∈ z :: path ∨ y ∈ g.registered := by
  have hroots {g : Growth} : g.roots = g.under none := rfl
  induction hpath generalizing g with
  | start =>
      rw [List.foldl_cons, List.foldl_nil]
      refine ⟨h.attach (hfresh s List.mem_cons_self) hzm hp, ?_, fun y => ?_⟩
      · rw [hroots, under_attach, h.parent?_eq hp, hroots]
      · rw [mem_registered_attach, List.mem_singleton]
  | @step path a z hpath haz ih =>
      have hattach := h.attach (hfresh z List.mem_cons_self) hzm hp
      have hz : z ∈ (Growth.attach m g z).registered := mem_registered_attach.2 (.inl rfl)
      have ham : a ∈ m := NodeMap.mem_of_presentParent? haz
      have hpa : ∀ p, m.presentParent? a = some p → p ∈ (Growth.attach m g z).registered := by
        simp [haz]
      -- an object that comes up again would be on a cycle
      have hnew : ∀ y ∈ a :: path, y ∉ (Growth.attach m g z).registered := by
        intro y hy hmem
        rcases mem_registered_attach.1 hmem with rfl | hmem
        · have hround : Circular m.presentParent? y := (hpath.step haz).leadsOn hy
          exact hround.not_ends (hattach.ends y hz)
        · exact hfresh y (List.mem_cons_of_mem z hy) hmem
      obtain ⟨hsound, hend, hmem⟩ := ih hattach ham hpa hnew
      rw [List.foldl_cons]
      refine ⟨hsound, ?_, fun y => ?_⟩
      · rw [hend, haz, if_neg (Option.some_ne_none z), hroots, under_attach, h.parent?_eq hp, hroots]
      · rw [hmem, mem_registered_attach, List.mem_cons (a := y) (b := z)]
        exact or_left_comm.trans or_assoc.symm

end Sound

/-! ### Visits -/

/-- What holds when some objects have been visited, with the tops above them. -/
structure Reached (m : NodeMap) (seen tops : List Ident) (g : Growth) : Prop where
  sound : Sound m g
  seen_mem : ∀ x ∈ seen, x ∈ g.registered
  roots_eq : g.roots = distinct tops

namespace Reached

/-- A climb to the top attaches what it has passed, with a root that is new. -/
theorem of_top (h : Reached m seen tops g) (hx : x ∈ m) (hpath : Climbed m.presentParent? x path z)
    (hz : m.presentParent? z = none) (hfresh : ∀ y ∈ z :: path, y ∉ g.registered) :
    Reached m (seen ++ [x]) (tops ++ [z]) ((z :: path).foldl (attach m) g) := by
  have hp : ∀ p, m.presentParent? z = some p → p ∈ g.registered := by simp [hz]
  have hzm : z ∈ m := NodeMap.mem_of_leads_presentParent? hpath.leads hx
  obtain ⟨hsound, hroots, hmem⟩ := h.sound.foldl_attach hpath hzm hp hfresh
  refine ⟨hsound, fun y hy => (hmem y).2 ?_, ?_⟩
  · rcases List.mem_append.1 hy with hy | hy
    · exact .inr (h.seen_mem y hy)
    · rw [List.mem_singleton.1 hy, List.mem_cons, or_comm (a := x = z)]
      exact .inl hpath.mem_or_eq
  · have hnew : z ∉ tops := by
      intro hmem
      rw [← mem_distinct, ← h.roots_eq] at hmem
      exact hfresh z List.mem_cons_self ((h.sound.mem_under none z).1 hmem).1
    rw [hroots, if_pos hz, h.roots_eq, distinct_concat, if_neg hnew]

/-- A climb to an object that has a place attaches what it has passed below that.  The top above is a
root already. -/
theorem of_stopped (h : Reached m seen tops g) (hpath : Climbed m.presentParent? x path z)
    (hz : z ∈ g.registered) (hfresh : ∀ y ∈ path, y ∉ g.registered) (ht : m.topOf x = .ok t) :
    Reached m (seen ++ [x]) (tops ++ [t]) (path.foldl (attach m) g) := by
  obtain ⟨hsound, hroots, hmem⟩ : Sound m (path.foldl (attach m) g) ∧
      (path.foldl (attach m) g).roots = g.roots ∧
      ∀ y, y ∈ (path.foldl (attach m) g).registered ↔ y ∈ path ∨ y ∈ g.registered := by
    cases hpath with
    | start => exact ⟨h.sound, rfl, by simp⟩
    | @step path a z hpath haz =>
        have ham : a ∈ m := NodeMap.mem_of_presentParent? haz
        have hp : ∀ p, m.presentParent? a = some p → p ∈ g.registered := by simpa [haz] using hz
        obtain ⟨hsound, hroots, hmem⟩ := h.sound.foldl_attach hpath ham hp hfresh
        rw [haz, if_neg (Option.some_ne_none z)] at hroots
        exact ⟨hsound, hroots, hmem⟩
  have hx : x ∈ (path.foldl (attach m) g).registered := by
    rw [hmem]
    exact hpath.mem_or_eq.imp_right fun hxz : x = z => hxz ▸ hz
  refine ⟨hsound, fun y hy => ?_, ?_⟩
  · rcases List.mem_append.1 hy with hy | hy
    · exact (hmem y).2 (.inr (h.seen_mem y hy))
    · exact List.mem_singleton.1 hy ▸ hx
  · obtain ⟨hxt, htop⟩ := NodeMap.leads_of_topOf ht
    have hroot : t ∈ tops := by
      rw [← mem_distinct, ← h.roots_eq, ← hroots]
      exact (hsound.mem_under none t).2 ⟨hsound.mem_of_leads hx hxt, htop⟩
    rw [hroots, h.roots_eq, distinct_concat, if_pos hroot]

/-- **A visit goes along with the climb to the top.** -/
theorem endsAlike_visit (h : Reached m seen tops g) (hx : x ∈ m) :
    EndsAlike (fun g' t => Reached m (seen ++ [x]) (tops ++ [t]) g') (visit m g x) (m.topOf x) := by
  have hkeys (a b : Ident) (hab : m.presentParent? a = some b) : a = x ∨ a ∈ m :=
    .inr (NodeMap.mem_of_presentParent? hab)
  have hsound : (m.climb m.presentParent? (fun y => g.registered.contains y) .empty x).Sound
      m.presentParent? (fun y => g.registered.contains y) x 0 := NodeMap.climb_empty_sound hkeys
  have hfresh {n k : Nat} {y : Ident}
      (hpassed : Passed m.presentParent? (fun y => g.registered.contains y) x 0 n)
      (hk : k < n) (hy : follow m.presentParent? k x = some y) : y ∉ g.registered := by
    have hno : g.registered.contains y = false := hpassed k y (Nat.zero_le k) hk hy
    rw [Std.ExtTreeSet.mem_iff_contains, hno]
    exact Bool.false_ne_true
  rw [visit]
  cases hc : m.climb m.presentParent? (fun y => g.registered.contains y) .empty x with
  | top path =>
      rw [hc] at hsound
      obtain ⟨z, rest, rfl, hpath, hz, hpassed⟩ := hsound
      have htop : m.topOf x = .ok z := by
        rw [NodeMap.topOf, NodeMap.climb, climb_eq_of_ne_stopped hc (by simp)]
      rw [htop]
      refine .ok (h.of_top hx hpath hz ?_)
      rw [List.forall_mem_cons]
      refine ⟨hfresh hpassed (Nat.lt_succ_self _) hpath.follow_eq, fun y hy => ?_⟩
      obtain ⟨k, hk, hky⟩ := hpath.mem_path_iff.1 hy
      exact hfresh hpassed (Nat.lt_succ_of_lt hk) hky
  | stopped z path =>
      rw [hc] at hsound
      obtain ⟨-, hpath, hz, hpassed⟩ := hsound
      have hz : z ∈ g.registered := Std.ExtTreeSet.mem_iff_contains.2 hz
      obtain ⟨t, htop⟩ := NodeMap.exists_topOf_eq_ok (.of_leads hpath.leads (h.sound.ends z hz))
      rw [htop]
      refine .ok (h.of_stopped hpath hz (fun y hy => ?_) htop)
      obtain ⟨k, hk, hky⟩ := hpath.mem_path_iff.1 hy
      exact hfresh hpassed hk hky
  | looped z =>
      have htop : m.topOf x = .error (.cycle z) := by
        rw [NodeMap.topOf, NodeMap.climb, climb_eq_of_ne_stopped hc (by simp)]
      rw [htop]
      exact .error _

theorem endsAlike_visits {ids : List Ident} (hids : ∀ x ∈ ids, x ∈ m) (h : Reached m seen tops g) :
    EndsAlike (fun g' ts => Reached m (seen ++ ids) (tops ++ ts) g') (ids.foldlM (visit m) g)
      (ids.mapM m.topOf) := by
  induction ids generalizing seen tops g with
  | nil => exact .ok (by simpa using h)
  | cons x ids ih =>
      rw [List.forall_mem_cons] at hids
      rw [List.foldlM_cons, List.mapM_cons]
      refine (h.endsAlike_visit hids.1).bind fun g' t h' => ?_
      have hrest := ih hids.2 h'
      rw [List.append_assoc, List.singleton_append] at hrest
      generalize ids.foldlM (visit m) g' = grown at hrest
      generalize ids.mapM m.topOf = ts at hrest
      cases hrest with
      | ok hall => exact .ok (by simpa using hall)
      | error e => exact .error e

theorem start (hx : x ∈ m) (hroot : m.presentParent? x = none) : Reached m [] [x] (start x) where
  sound := by
    rw [← attach_empty (m := m)]
    exact Sound.empty.attach (by simp [Growth.empty]) hx (by simp [hroot])
  seen_mem := by simp
  roots_eq := rfl

end Reached

/-! ### The growth of a map -/

/-- A growth and a forest show the same. -/
structure Shows (g : Growth) (f : Forest) : Prop where
  mem_registered : ∀ x, x ∈ g.registered ↔ x ∈ f.nodes
  size_registered : g.registered.size = f.size
  under_none : g.under none = f.roots
  under_some : ∀ p, g.under (some p) = f.children p

theorem under_some_sort (p : Ident) : (g.sort m).under (some p) =
    stableSort (fun a b => (m.compareSiblings a b).isLE) (g.under (some p)) := by
  rw [under, sort, Std.ExtTreeMap.getElem?_map, under]
  cases g.branches[p]? <;> rfl

/-- When every object has been visited, and the children are sorted, the growth shows what a forest of
the objects shows that has the same roots. -/
theorem Reached.shows_sort {f : Forest} (h : Reached m f.nodes.keys tops g) (hm : f.nodes = m)
    (hroots : f.roots = distinct tops) : (g.sort m).Shows f := by
  subst hm
  have hmem (x : Ident) : x ∈ g.registered ↔ x ∈ f.nodes :=
    ⟨h.sound.mem x, fun hx => h.seen_mem x (Std.ExtTreeMap.mem_keys.2 hx)⟩
  refine ⟨hmem, ?_, h.roots_eq.trans hroots.symm, fun p => ?_⟩
  · have hnodup : g.registered.toList.Nodup := by
      refine Std.ExtTreeSet.distinct_toList.imp ?_
      rintro a _ hne rfl
      exact hne Std.ReflOrd.compare_self
    have hperm : g.registered.toList.Perm f.nodes.keys :=
      (List.perm_ext_iff_of_nodup hnodup Std.ExtTreeMap.nodup_keys).2 fun x => by
        rw [Std.ExtTreeSet.mem_toList, hmem, Std.ExtTreeMap.mem_keys]
    have hsize := hperm.length_eq
    rwa [Std.ExtTreeSet.length_toList, Std.ExtTreeMap.length_keys] at hsize
  · rw [under_some_sort]
    have hperm : (g.under (some p)).Perm (f.children p) := by
      refine (List.perm_ext_iff_of_nodup (h.sound.nodup_under _) (f.nodup_children p)).2 fun x => ?_
      rw [h.sound.mem_under, hmem, NodeMap.presentParent?_eq_some_iff, Forest.mem_children]
      constructor
      · exact fun ⟨_, hxp, hp⟩ => ⟨hp, hxp⟩
      · exact fun ⟨hp, hxp⟩ => ⟨NodeMap.mem_of_parent? hxp, hxp, hp⟩
    refine List.Perm.eq_of_pairwise (fun a b _ _ => NodeMap.eq_of_compareSiblings)
      (pairwise_stableSort_isLE _) ?_ ((stableSort_perm _ _).trans hperm)
    exact (f.pairwise_children p).imp NodeMap.Before.isLE_compareSiblings

/-- **The growth and the forest of the map end alike.** -/
theorem endsAlike_ofMap (m : NodeMap) : EndsAlike Shows (ofMap m) (Forest.ofMap m) := by
  have hfinish {tops ts : List Ident} {g : Growth} (h : Reached m m.keys tops g)
      (hts : distinct ts = distinct tops) : (g.sort m).Shows { nodes := m, roots := distinct ts } :=
    Reached.shows_sort h rfl hts
  rw [ofMap, Forest.ofMap_eq]
  cases hkeys : m.keys with
  | nil =>
      rw [hkeys] at hfinish
      have hsort : (empty.sort m) = empty := by simp [sort, empty]
      exact .ok (hsort ▸ hfinish ⟨.empty, by simp, rfl⟩ rfl)
  | cons first ids =>
      have hmem : ∀ x ∈ first :: ids, x ∈ m := fun x hx => Std.ExtTreeMap.mem_keys.1 (hkeys ▸ hx)
      change EndsAlike Shows (m.topOf first >>= fun root =>
        (first :: ids).foldlM (visit m) (start root) >>= fun g => pure (g.sort m)) _
      cases hroot : m.topOf first with
      | error e =>
          rw [mapM_cons_eq_error_iff.2 (.inl hroot)]
          exact .error e
      | ok root =>
          obtain ⟨hleads, htop⟩ := NodeMap.leads_of_topOf hroot
          have hrootm := NodeMap.mem_of_leads_presentParent? hleads (hmem first List.mem_cons_self)
          have hrun := (Reached.start hrootm htop).endsAlike_visits hmem
          change EndsAlike Shows
            ((first :: ids).foldlM (visit m) (start root) >>= fun g => pure (g.sort m)) _
          cases hts : (first :: ids).mapM m.topOf with
          | error e =>
              rw [hts] at hrun
              rw [hrun.eq_error]
              exact .error e
          | ok ts =>
              obtain ⟨t, rest, ht, -, rfl⟩ := mapM_cons_eq_ok_iff.1 hts
              rw [hroot] at ht
              cases ht
              rw [hts] at hrun
              obtain ⟨g, hg, h⟩ := hrun.exists_ok
              rw [List.nil_append, ← hkeys] at h
              rw [hg]
              exact .ok (hfinish h (by simp [distinct_cons]))

end Growth

/-! ### The forest of a list of objects -/

theorem NodeMap.mem_ofList {nodes : List Node} {id : Ident} :
    id ∈ ofList nodes ↔ id ∈ nodes.map Node.id := by
  rw [mem_iff_exists, List.mem_map]
  constructor
  · rintro ⟨n, hn⟩
    exact ⟨n, mem_of_getElem?_ofList hn, id_of_getElem?_ofList hn⟩
  · rintro ⟨n, hn, hid⟩
    rw [getElem?_ofList, ← Option.isSome_iff_exists, List.getLast?_isSome]
    exact List.ne_nil_of_mem (List.mem_filter.2 ⟨hn, decide_eq_true hid⟩)

theorem NodeMap.size_ofList (nodes : List Node) :
    (ofList nodes).size = (distinct (nodes.map Node.id)).length := by
  have hperm : (ofList nodes).keys.Perm (distinct (nodes.map Node.id)) :=
    (List.perm_ext_iff_of_nodup Std.ExtTreeMap.nodup_keys (nodup_distinct _)).2 fun id => by
      rw [Std.ExtTreeMap.mem_keys, mem_ofList, mem_distinct]
  rw [← hperm.length_eq, Std.ExtTreeMap.length_keys]

namespace Forest

variable {m : NodeMap} {f : Forest} {x p : Ident}

theorem children_eq_nil (hp : p ∉ f.nodes) : f.children p = [] :=
  List.eq_nil_iff_forall_not_mem.2 fun _ hx => hp (mem_children.1 hx).1

/-- Every object is a root or the child of one object, and is so once. -/
theorem perm_keys_of_ofMap (h : ofMap m = .ok f) :
    (f.roots ++ m.keys.flatMap f.children).Perm m.keys := by
  have hm := nodes_of_ofMap h
  subst hm
  refine (List.perm_ext_iff_of_nodup ?_ Std.ExtTreeMap.nodup_keys).2 fun x => ?_
  · rw [List.nodup_append', List.nodup_flatMap]
    refine ⟨nodup_roots_of_ofMap h, ⟨fun p _ => f.nodup_children p, ?_⟩, ?_⟩
    · refine Std.ExtTreeMap.nodup_keys.imp ?_
      intro p q hpq x hxp hxq
      have hp := (mem_children.1 hxp).2
      rw [(mem_children.1 hxq).2] at hp
      exact hpq (Option.some_inj.1 hp).symm
    · intro x hx hxc
      obtain ⟨p, -, hxp⟩ := List.mem_flatMap.1 hxc
      obtain ⟨hp, hparent⟩ := mem_children.1 hxp
      have hnone := ((mem_roots_of_ofMap h).1 hx).2
      rw [NodeMap.presentParent?_eq_some_iff.2 ⟨hparent, hp⟩] at hnone
      cases hnone
  · rw [List.mem_append, mem_roots_of_ofMap h, List.mem_flatMap, Std.ExtTreeMap.mem_keys]
    constructor
    · rintro (⟨hx, -⟩ | ⟨p, -, hxp⟩)
      · exact hx
      · exact NodeMap.mem_of_parent? (mem_children.1 hxp).2
    · intro hx
      cases hp : f.nodes.presentParent? x with
      | none => exact .inl ⟨hx, rfl⟩
      | some p =>
          obtain ⟨hparent, hpm⟩ := NodeMap.presentParent?_eq_some_iff.1 hp
          exact .inr ⟨p, Std.ExtTreeMap.mem_keys.2 hpm, mem_children.2 ⟨hpm, hparent⟩⟩

/-- **What the forest of a list of objects is, and when there is none.**  It can be grown object by
object.  It fails to exist exactly if the parents of some object lead back to it.  Otherwise it holds the
objects of the list, and each of them either among the roots or among the children of one object: among
the roots if its parent is absent, and else among the children of its parent, by place and then by
identifier. -/
theorem ofMap_rebuilds (nodes : List Node) :
    let m := NodeMap.ofList nodes
    EndsAlike Growth.Shows (Growth.ofMap m) (ofMap m) ∧
    ((∃ e, ofMap m = .error e) ↔ ∃ id, Circular m.parent? id) ∧
    ∀ f, ofMap m = .ok f →
      (∀ id, id ∈ f.nodes ↔ id ∈ nodes.map Node.id) ∧
      (f.roots ++ m.keys.flatMap f.children).Perm m.keys ∧
      (∀ id, id ∈ f.roots ↔ id ∈ m ∧ ∀ p, m.parent? id = some p → p ∉ m) ∧
      (∀ p ∈ m, ∀ id, id ∈ f.children p ↔ m.parent? id = some p) ∧
      (∀ p, (f.children p).Pairwise m.Before) ∧
      (∀ p, p ∉ m → f.children p = []) ∧
      f.size = (distinct (nodes.map Node.id)).length := by
  intro m
  refine ⟨Growth.endsAlike_ofMap m, ?_, fun f hf => ?_⟩
  · constructor
    · rintro ⟨e, he⟩
      obtain ⟨z, -, hz⟩ := circular_of_ofMap_eq_error he
      exact ⟨z, hz⟩
    · rintro ⟨z, hz⟩
      cases hf : ofMap m with
      | error e => exact ⟨e, rfl⟩
      | ok f => exact absurd hz (exists_ofMap_eq_ok_iff.1 ⟨f, hf⟩ z)
  · have hm : f.nodes = m := nodes_of_ofMap hf
    refine ⟨fun id => ?_, perm_keys_of_ofMap hf, fun id => ?_, fun p hp id => ?_, fun p => ?_,
      fun p hp => ?_, ?_⟩
    · rw [hm, NodeMap.mem_ofList]
    · rw [mem_roots_of_ofMap hf, NodeMap.presentParent?, Option.filter_eq_none_iff]
      simp only [← Std.ExtTreeMap.mem_iff_contains]
    · rw [mem_children, hm]
      exact and_iff_right hp
    · exact hm ▸ f.pairwise_children p
    · exact children_eq_nil (hm ▸ hp)
    · rw [size, hm, NodeMap.size_ofList]

/-- The second record of an object counts, one parent is absent, and siblings of one place stand in the
order of their identifiers.  In the second list the cycle lies away from the first root. -/
theorem ofMap_rebuilds_dangling :
    let nodes : List Node := [⟨some ⟨"x"⟩, "T", ⟨"b"⟩, 9⟩, ⟨some ⟨"ws"⟩, "T", ⟨"a"⟩, 0⟩,
      ⟨some ⟨"a"⟩, "T", ⟨"d"⟩, 1⟩, ⟨some ⟨"a"⟩, "T", ⟨"c"⟩, 1⟩, ⟨some ⟨"a"⟩, "T", ⟨"b"⟩, 2⟩,
      ⟨none, "T", ⟨"e"⟩, 0⟩, ⟨some ⟨"a"⟩, "T", ⟨"z"⟩, 0⟩]
    let circle : List Node := [⟨none, "T", ⟨"a"⟩, 0⟩, ⟨some ⟨"q"⟩, "T", ⟨"p"⟩, 0⟩,
      ⟨some ⟨"p"⟩, "T", ⟨"q"⟩, 0⟩]
    (∃ f, ofMap (NodeMap.ofList nodes) = .ok f ∧ f.size = 6 ∧ f.roots = [⟨"a"⟩, ⟨"e"⟩] ∧
      f.children ⟨"a"⟩ = [⟨"z"⟩, ⟨"c"⟩, ⟨"d"⟩, ⟨"b"⟩] ∧ f.children ⟨"x"⟩ = [] ∧
      ∃ g, Growth.ofMap (NodeMap.ofList nodes) = .ok g ∧ g.Shows f) ∧
    ofMap (NodeMap.ofList circle) = .error (.cycle ⟨"p"⟩) ∧
    Growth.ofMap (NodeMap.ofList circle) = .error (.cycle ⟨"p"⟩) ∧
    ∃ id, Circular (NodeMap.ofList circle).parent? id := by
  intro nodes circle
  obtain ⟨halike, -, hforest⟩ := ofMap_rebuilds nodes
  obtain ⟨halike', hcycle, -⟩ := ofMap_rebuilds circle
  obtain ⟨f, hf, hroots, hchildren⟩ : ∃ f, ofMap (NodeMap.ofList nodes) = .ok f ∧
      f.roots = [⟨"a"⟩, ⟨"e"⟩] ∧ f.children ⟨"a"⟩ = [⟨"z"⟩, ⟨"c"⟩, ⟨"d"⟩, ⟨"b"⟩] :=
    ⟨_, by rfl, by decide +kernel, by decide +kernel⟩
  have hcircle : ofMap (NodeMap.ofList circle) = .error (.cycle ⟨"p"⟩) := by rfl
  obtain ⟨-, -, -, -, -, hnone, hsize⟩ := hforest f hf
  refine ⟨⟨f, hf, hsize.trans (by decide +kernel), hroots, hchildren, hnone _ (by decide +kernel), ?_⟩,
    hcircle, ?_, hcycle.1 ⟨_, hcircle⟩⟩
  · rw [hf] at halike
    exact halike.exists_ok
  · rw [hcircle] at halike'
    exact halike'.eq_error

end Forest

end GraphDelta
