/-
**Chains of pointers.**

A partial function on identifiers points from each one to at most one other, so from every start
there is one chain to follow.  A chain of parents may end, or run into a cycle.  Over finitely many
identifiers these are the only two possibilities, and whatever a chain leads to it leads to in
fewer steps than there are identifiers.

Main definitions:

* `follow` — the identifier at a given distance along the chain;
* `Leads`, `LeadsOn` — one identifier leads to another, in any number of steps or in at least one;
* `Circular` — an identifier leads on to itself;
* `Ends` — the chain from an identifier ends;
* `NodeMap.Acyclic` — no object is its own ancestor.

Main results:

* `Leads.total` — **chains do not branch**: of two identifiers on a chain one leads to the other;
* `nodup_cons_flatMap` — what leads to different children of an identifier is different;
* `Ends.exists_last` — a chain that ends has a last identifier of any kind that it meets;
* `ends_or_circular` — a chain over finitely many identifiers ends or runs into a cycle;
* `Leads.exists_lt` — the distance is bounded by the number of identifiers.
-/
import GraphDelta.Catalog
import Mathlib.Data.List.Nodup
import Mathlib.Data.List.Perm.Subperm
import Mathlib.Data.Nat.Find

set_option autoImplicit false

namespace GraphDelta

variable {next next' : Ident → Option Ident} {x y z : Ident} {j k : Nat}

/-! ### Following pointers -/

/-- The identifier that `k` pointers lead to from `x`. -/
def follow (next : Ident → Option Ident) : Nat → Ident → Option Ident
  | 0, x => some x
  | k + 1, x => (next x).bind (follow next k)

@[simp] theorem follow_zero : follow next 0 x = some x := rfl

theorem follow_succ : follow next (k + 1) x = (next x).bind (follow next k) := rfl

theorem follow_add (j k : Nat) (x : Ident) :
    follow next (j + k) x = (follow next j x).bind (follow next k) := by
  induction j generalizing x with
  | zero => simp
  | succ j ih =>
      rw [Nat.succ_add, follow_succ, follow_succ]
      cases next x with
      | none => rfl
      | some y => exact ih y

theorem follow_succ_right (k : Nat) (x : Ident) :
    follow next (k + 1) x = (follow next k x).bind next := by
  rw [follow_add]
  congr 1
  funext y
  rw [follow_succ]
  cases next y <;> rfl

theorem follow_split (h : follow next k x = some y) (hjk : j ≤ k) :
    ∃ z, follow next j x = some z ∧ follow next (k - j) z = some y := by
  obtain ⟨i, rfl⟩ := Nat.exists_eq_add_of_le hjk
  rw [follow_add] at h
  obtain ⟨z, hz, hy⟩ := Option.bind_eq_some_iff.1 h
  exact ⟨z, hz, by rwa [Nat.add_sub_cancel_left]⟩

theorem follow_eq_none_of_le (h : follow next j x = none) (hjk : j ≤ k) :
    follow next k x = none := by
  obtain ⟨i, rfl⟩ := Nat.exists_eq_add_of_le hjk
  rw [follow_add, h]
  rfl

theorem follow_mono (hn : ∀ a b, next a = some b → next' a = some b)
    (h : follow next k x = some y) : follow next' k x = some y := by
  induction k generalizing x with
  | zero => exact h
  | succ k ih =>
      obtain ⟨a, ha, hy⟩ := Option.bind_eq_some_iff.1 h
      rw [follow_succ, hn x a ha]
      exact ih hy

/-! ### Leading somewhere -/

/-- Following pointers from `x`, in any number of steps, leads to `y`. -/
def Leads (next : Ident → Option Ident) (x y : Ident) : Prop := ∃ k, follow next k x = some y

/-- Following pointers from `x`, in at least one step, leads to `y`. -/
def LeadsOn (next : Ident → Option Ident) (x y : Ident) : Prop := ∃ k, follow next (k + 1) x = some y

/-- Following pointers from `x` leads back to it. -/
def Circular (next : Ident → Option Ident) (x : Ident) : Prop := LeadsOn next x x

/-- Following pointers from `x` comes to an end. -/
def Ends (next : Ident → Option Ident) (x : Ident) : Prop := ∃ k, follow next k x = none

theorem Leads.refl (x : Ident) : Leads next x x := ⟨0, rfl⟩

theorem Leads.trans (h : Leads next x y) (h' : Leads next y z) : Leads next x z := by
  obtain ⟨j, hj⟩ := h
  obtain ⟨k, hk⟩ := h'
  exact ⟨j + k, by rw [follow_add, hj]; exact hk⟩

theorem LeadsOn.leads (h : LeadsOn next x y) : Leads next x y := by
  obtain ⟨k, hk⟩ := h
  exact ⟨k + 1, hk⟩

theorem leadsOn_iff : LeadsOn next x y ↔ ∃ z, next x = some z ∧ Leads next z y := by
  constructor
  · rintro ⟨k, hk⟩
    obtain ⟨z, hz, hy⟩ := Option.bind_eq_some_iff.1 hk
    exact ⟨z, hz, k, hy⟩
  · rintro ⟨z, hz, k, hk⟩
    exact ⟨k, by rw [follow_succ, hz]; exact hk⟩

theorem leads_iff : Leads next x y ↔ x = y ∨ LeadsOn next x y := by
  constructor
  · rintro ⟨k, hk⟩
    cases k with
    | zero => exact .inl (Option.some_inj.1 hk)
    | succ k => exact .inr ⟨k, hk⟩
  · rintro (rfl | h)
    · exact .refl x
    · exact h.leads

theorem LeadsOn.single (h : next x = some y) : LeadsOn next x y := leadsOn_iff.2 ⟨y, h, .refl y⟩

theorem Leads.single (h : next x = some y) : Leads next x y := (LeadsOn.single h).leads

theorem LeadsOn.trans_leads (h : LeadsOn next x y) (h' : Leads next y z) : LeadsOn next x z := by
  obtain ⟨a, ha, hay⟩ := leadsOn_iff.1 h
  exact leadsOn_iff.2 ⟨a, ha, hay.trans h'⟩

theorem Leads.mono (hn : ∀ a b, next a = some b → next' a = some b) (h : Leads next x y) :
    Leads next' x y := by
  obtain ⟨k, hk⟩ := h
  exact ⟨k, follow_mono hn hk⟩

theorem Circular.mono (hn : ∀ a b, next a = some b → next' a = some b) (h : Circular next x) :
    Circular next' x := by
  obtain ⟨k, hk⟩ := h
  exact ⟨k, follow_mono hn hk⟩

/-- **Chains do not branch**: of two identifiers on a chain one leads to the other. -/
theorem Leads.total (hy : Leads next x y) (hz : Leads next x z) :
    Leads next y z ∨ Leads next z y := by
  obtain ⟨j, hj⟩ := hy
  obtain ⟨k, hk⟩ := hz
  rcases Nat.le_total j k with hjk | hkj
  · obtain ⟨a, ha, haz⟩ := follow_split hk hjk
    rw [hj] at ha
    cases ha
    exact .inl ⟨k - j, haz⟩
  · obtain ⟨a, ha, hay⟩ := follow_split hj hkj
    rw [hk] at ha
    cases ha
    exact .inr ⟨j - k, hay⟩

/-! ### Ends and cycles -/

theorem Ends.mono (hn : ∀ a b, next' a = some b → next a = some b) (hx : Ends next x) :
    Ends next' x := by
  obtain ⟨k, hk⟩ := hx
  refine ⟨k, Option.eq_none_iff_forall_ne_some.2 fun y hy => ?_⟩
  rw [follow_mono hn hy] at hk
  cases hk

theorem Ends.of_eq_none (h : next x = none) : Ends next x := ⟨1, by rw [follow_succ, h]; rfl⟩

theorem Ends.of_leads (h : Leads next x y) (hy : Ends next y) : Ends next x := by
  obtain ⟨j, hj⟩ := h
  obtain ⟨k, hk⟩ := hy
  exact ⟨j + k, by rw [follow_add, hj]; exact hk⟩

/-- What follows on a chain that ends is on a shorter chain that ends. -/
theorem follow_eq_none_after (hk : follow next k x = none) (hj : follow next j x = some y) :
    j < k ∧ follow next (k - j) y = none := by
  have hjk : j < k := by
    by_contra hle
    rw [follow_eq_none_of_le hk (Nat.not_lt.1 hle)] at hj
    cases hj
  obtain ⟨i, rfl⟩ := Nat.exists_eq_add_of_le (Nat.le_of_lt hjk)
  rw [follow_add, hj] at hk
  exact ⟨hjk, by rwa [Nat.add_sub_cancel_left]⟩

theorem Ends.leads (hx : Ends next x) (h : Leads next x y) : Ends next y := by
  obtain ⟨k, hk⟩ := hx
  obtain ⟨j, hj⟩ := h
  exact ⟨k - j, (follow_eq_none_after hk hj).2⟩

/-- A chain that ends has a last identifier of any kind that it meets. -/
theorem Ends.exists_last {p : Ident → Prop} (hx : Ends next x) (hp : p x) :
    ∃ y, Leads next x y ∧ p y ∧ ∀ z, LeadsOn next y z → ¬ p z := by
  obtain ⟨k, hk⟩ := hx
  -- induction on the length of the chain, which every later identifier of the kind shortens
  induction k using Nat.strong_induction_on generalizing x with
  | _ k ih =>
      by_cases h : ∃ z, LeadsOn next x z ∧ p z
      · obtain ⟨z, ⟨j, hj⟩, hz⟩ := h
        have hlt := follow_eq_none_after hk hj
        obtain ⟨y, hzy, hy⟩ := ih (k - (j + 1)) (by omega) hz hlt.2
        exact ⟨y, .trans ⟨j + 1, hj⟩ hzy, hy⟩
      · push Not at h
        exact ⟨x, .refl x, hp, h⟩

/-- A kind of identifiers that is not met any more from some point of a chain on is met for the last
time before. -/
theorem Leads.exists_last {p : Ident → Prop} (h : Leads next x z) (hz : ∀ y, Leads next z y → ¬ p y)
    (hp : p x) : ∃ y, Leads next x y ∧ p y ∧ ∀ w, LeadsOn next y w → ¬ p w := by
  obtain ⟨k, hk⟩ := h
  induction k using Nat.strong_induction_on generalizing x with
  | _ k ih =>
      by_cases hmore : ∃ w, LeadsOn next x w ∧ p w
      · obtain ⟨w, ⟨j, hj⟩, hw⟩ := hmore
        rcases Nat.lt_or_ge j k with hlt | hge
        · obtain ⟨a, ha, haz⟩ := follow_split hk hlt
          rw [hj] at ha
          cases ha
          obtain ⟨y, hwy, hy⟩ := ih (k - (j + 1)) (by omega) hw haz
          exact ⟨y, .trans ⟨j + 1, hj⟩ hwy, hy⟩
        · obtain ⟨a, ha, haw⟩ := follow_split hj (show k ≤ j + 1 by omega)
          rw [hk] at ha
          cases ha
          exact absurd hw (hz w ⟨_, haw⟩)
      · push Not at hmore
        exact ⟨x, .refl x, hp, hmore⟩

theorem Circular.follow_mul (h : follow next k x = some x) (n : Nat) :
    follow next (n * k) x = some x := by
  induction n with
  | zero => simp
  | succ n ih => rw [Nat.succ_mul, follow_add, ih]; exact h

theorem Circular.not_ends (h : Circular next x) : ¬ Ends next x := by
  rintro ⟨l, hl⟩
  obtain ⟨k, hk⟩ := h
  have hround := Circular.follow_mul hk l
  rw [follow_eq_none_of_le hl (Nat.le_mul_of_pos_right l (Nat.succ_pos k))] at hround
  cases hround

theorem Circular.leads (h : Circular next x) (hy : Leads next x y) : Circular next y := by
  obtain ⟨k, hk⟩ := h
  obtain ⟨j, hj⟩ := hy
  have hround := Circular.follow_mul hk (j + 1)
  have hle : j + 1 ≤ (j + 1) * (k + 1) := Nat.le_mul_of_pos_right _ (Nat.succ_pos k)
  obtain ⟨a, ha, hax⟩ := follow_split hround (show j ≤ (j + 1) * (k + 1) by omega)
  rw [hj] at ha
  cases ha
  refine LeadsOn.trans_leads ⟨(j + 1) * (k + 1) - j - 1, ?_⟩ ⟨j, hj⟩
  rwa [Nat.sub_add_cancel (by omega)]

/-- What does not lead back to itself is met once at most. -/
theorem eq_of_follow_of_not_circular (hy : ¬ Circular next y) (hj : follow next j x = some y)
    (hk : follow next k x = some y) : j = k := by
  have hle {j k : Nat} (hj : follow next j x = some y) (hk : follow next k x = some y) :
      k ≤ j := by
    by_contra hlt
    obtain ⟨a, ha, hay⟩ := follow_split hk (Nat.le_of_not_le hlt)
    rw [hj] at ha
    cases ha
    refine hy ⟨k - j - 1, ?_⟩
    rwa [Nat.sub_add_cancel (by omega)]
  exact Nat.le_antisymm (hle hk hj) (hle hj hk)

/-- What points nowhere is met once at most. -/
theorem eq_of_follow_last (hy : next y = none) (hj : follow next j x = some y)
    (hk : follow next k x = some y) : j = k := by
  refine eq_of_follow_of_not_circular (fun hround => ?_) hj hk
  obtain ⟨z, hz, -⟩ := leadsOn_iff.1 hround
  rw [hy] at hz
  cases hz

/-- Where the chain from `x` ends, and each child points to `x` and is followed by what leads to it, no
identifier is listed twice. -/
theorem nodup_cons_flatMap {children : List Ident} {below : Ident → List Ident} (hx : Ends next x)
    (hchildren : children.Nodup) (hnext : ∀ a ∈ children, next a = some x)
    (hleads : ∀ a ∈ children, ∀ z ∈ below a, Leads next z a)
    (hbelow : ∀ a ∈ children, (below a).Nodup) : (x :: children.flatMap below).Nodup := by
  have hends {a : Ident} (ha : a ∈ children) : Ends next a :=
    .of_leads (.single (hnext a ha)) hx
  -- what leads on from one child to another comes back to it over the parent of both
  have hone {a b : Ident} (ha : a ∈ children) (hb : b ∈ children) (hab : Leads next a b) : a = b := by
    rcases leads_iff.1 hab with heq | hon
    · exact heq
    · obtain ⟨z, hz, hzb⟩ := leadsOn_iff.1 hon
      rw [hnext a ha] at hz
      cases hz
      have hround : Circular next b := leadsOn_iff.2 ⟨x, hnext b hb, hzb⟩
      exact absurd (hends hb) hround.not_ends
  rw [List.nodup_cons, List.nodup_flatMap]
  refine ⟨?_, hbelow, ?_⟩
  · intro hmem
    obtain ⟨a, ha, hxa⟩ := List.mem_flatMap.1 hmem
    have hround : Circular next a := leadsOn_iff.2 ⟨x, hnext a ha, hleads a ha x hxa⟩
    exact hround.not_ends (hends ha)
  · refine hchildren.imp_of_mem ?_
    intro a b ha hb hab z hza hzb
    rcases (hleads a ha z hza).total (hleads b hb z hzb) with h | h
    · exact hab (hone ha hb h)
    · exact hab (hone hb ha h).symm

/-! ### Finitely many identifiers -/

/-- A chain that stays among fewer identifiers than it has places repeats one. -/
theorem exists_repeat {keys : List Ident} {n : Nat} (hlen : keys.length ≤ n)
    (hin : ∀ i ≤ n, ∃ a ∈ keys, follow next i x = some a) :
    ∃ i j, i < j ∧ j ≤ n ∧ follow next i x = follow next j x := by
  by_contra hno
  push Not at hno
  have hnodup : ((List.range (n + 1)).map (follow next · x)).Nodup := by
    refine List.Nodup.map_on ?_ List.nodup_range
    intro i hi j hj hij
    rw [List.mem_range] at hi hj
    rcases Nat.lt_trichotomy i j with hlt | rfl | hlt
    · exact absurd hij (hno i j hlt (by omega))
    · rfl
    · exact absurd hij.symm (hno j i hlt (by omega))
  have hsub : (List.range (n + 1)).map (follow next · x) ⊆ keys.map some := by
    intro a ha
    obtain ⟨i, hi, rfl⟩ := List.mem_map.1 ha
    obtain ⟨b, hb, hib⟩ := hin i (by rw [List.mem_range] at hi; omega)
    exact List.mem_map.2 ⟨b, hb, hib.symm⟩
  have hle := (List.subperm_of_subset hnodup hsub).length_le
  simp only [List.length_map, List.length_range] at hle
  omega

variable {keys : List Ident}

/-- A chain over finitely many identifiers ends or runs into a cycle. -/
theorem ends_or_circular (hkeys : ∀ a b, next a = some b → a ∈ keys) (x : Ident) :
    Ends next x ∨ ∃ z, Leads next x z ∧ Circular next z := by
  by_cases hx : Ends next x
  · exact .inl hx
  · right
    have hsome (i : Nat) : ∃ a, follow next i x = some a :=
      Option.ne_none_iff_exists'.1 fun hi => hx ⟨i, hi⟩
    have hin : ∀ i ≤ keys.length, ∃ a ∈ keys, follow next i x = some a := by
      intro i _
      obtain ⟨a, ha⟩ := hsome i
      obtain ⟨b, hb⟩ := hsome (i + 1)
      rw [follow_succ_right, ha] at hb
      exact ⟨a, hkeys a b hb, ha⟩
    obtain ⟨i, j, hij, -, heq⟩ := exists_repeat le_rfl hin
    obtain ⟨a, ha⟩ := hsome i
    obtain ⟨b, hb, hba⟩ := follow_split (heq ▸ ha) (Nat.le_of_lt hij)
    rw [ha] at hb
    cases hb
    refine ⟨a, ⟨i, ha⟩, j - i - 1, ?_⟩
    rwa [Nat.sub_add_cancel (by omega)]

/-- Whatever a chain leads to it leads to in fewer steps than there are identifiers. -/
theorem Leads.exists_lt (hkeys : ∀ a b, next a = some b → a ∈ keys) (hy : y ∈ keys)
    (h : Leads next x y) : ∃ k < keys.length, follow next k x = some y := by
  have hmin : ∀ k < Nat.find h, follow next k x ≠ some y := fun k hk => Nat.find_min h hk
  have hspec := Nat.find_spec h
  generalize Nat.find h = k at hmin hspec
  refine ⟨k, ?_, hspec⟩
  by_contra hge
  have hin : ∀ i ≤ k, ∃ a ∈ keys, follow next i x = some a := by
    intro i hi
    obtain ⟨a, ha, hay⟩ := follow_split hspec hi
    refine ⟨a, ?_, ha⟩
    rcases leads_iff.1 ⟨_, hay⟩ with rfl | hon
    · exact hy
    · obtain ⟨b, hb, -⟩ := leadsOn_iff.1 hon
      exact hkeys a b hb
  obtain ⟨i, j, hij, hj, heq⟩ := exists_repeat (Nat.not_lt.1 hge) hin
  obtain ⟨a, ha, hay⟩ := follow_split hspec hj
  refine hmin (i + (k - j)) (by omega) ?_
  rw [follow_add, heq, ha]
  exact hay

/-! ### Chains of parents -/

namespace NodeMap

variable {m : NodeMap}

/-- No object is its own ancestor. -/
def Acyclic (m : NodeMap) : Prop := ∀ id, ¬ Circular m.parent? id

theorem parent?_eq_some_iff : m.parent? x = some y ↔ ∃ n, m[x]? = some n ∧ n.parent = some y :=
  Option.bind_eq_some_iff

theorem mem_of_getElem?_eq_some {n : Node} (h : m[x]? = some n) : x ∈ m := by
  rw [Std.ExtTreeMap.mem_iff_isSome_getElem?, h]
  rfl

theorem mem_of_parent? (h : m.parent? x = some y) : x ∈ m := by
  obtain ⟨n, hn, -⟩ := parent?_eq_some_iff.1 h
  exact mem_of_getElem?_eq_some hn

theorem mem_keys_of_parent? (a b : Ident) (h : m.parent? a = some b) : a ∈ m.keys :=
  Std.ExtTreeMap.mem_keys.2 (mem_of_parent? h)

theorem mem_of_leadsOn (h : LeadsOn m.parent? x y) : x ∈ m := by
  obtain ⟨z, hz, -⟩ := leadsOn_iff.1 h
  exact mem_of_parent? hz

theorem mem_of_leads (h : Leads m.parent? x y) (hy : y ∈ m) : x ∈ m := by
  rcases leads_iff.1 h with rfl | h
  · exact hy
  · exact mem_of_leadsOn h

theorem Acyclic.ends (hm : m.Acyclic) (id : Ident) : Ends m.parent? id := by
  rcases ends_or_circular mem_keys_of_parent? id with h | ⟨z, -, hz⟩
  · exact h
  · exact absurd hz (hm z)

end NodeMap

end GraphDelta
