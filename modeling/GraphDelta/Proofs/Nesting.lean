/-
**What documents mean, and how deeply they nest.**

The concrete form of what is written for a tree means that tree, wherever the nesting limit leaves
room for it.  The other way round, whatever a concrete form means nests no deeper than the limit.
Sorting the members of an object and dropping repeated ones makes no tree deeper, and leaves a tree
alone that is canonical already.

Main definitions:

* `Json.nesting` — how deeply the lists and objects of a tree nest.

Main results:

* `Json.Concrete.resolveText?_codes` — no text holds half of a surrogate pair;
* `Json.Concrete.resolve?_spelling` — **what is written means the tree**;
* `Json.Concrete.nesting_le_of_resolve?` — **what is read keeps to the limit**;
* `Json.canonical_eq_self` — a canonical tree is its own canonical form;
* `Json.nesting_canonical_le` — canonical forms nest no deeper.
-/
import GraphDelta.Json.Reader
import GraphDelta.Proofs.Spelling

set_option autoImplicit false

namespace GraphDelta.Json

variable {limit : Nat}

/-! ### Nesting -/

mutual

/-- How deeply the lists and objects of a tree nest. -/
def nesting : Json → Nat
  | .array xs => nestingItems xs + 1
  | .object ms => nestingMembers ms + 1
  | .null | .bool _ | .number _ | .string _ => 0

/-- How deeply the items nest, at most. -/
def nestingItems : List Json → Nat
  | [] => 0
  | x :: xs => max (nesting x) (nestingItems xs)

/-- How deeply the members nest, at most. -/
def nestingMembers : List (String × Json) → Nat
  | [] => 0
  | (_, x) :: ms => max (nesting x) (nestingMembers ms)

end

namespace Concrete

/-! ### Texts -/

/-- Characters are not halves of surrogate pairs. -/
theorem isSurrogate_toNat (c : Char) :
    isHighSurrogate c.toNat = false ∧ isLowSurrogate c.toNat = false := by
  have hvalid : c.toNat < 0xd800 ∨ 0xdfff < c.toNat ∧ c.toNat < 0x110000 := c.valid
  simp only [isHighSurrogate, isLowSurrogate, Bool.and_eq_false_iff, decide_eq_false_iff_not]
  omega

theorem resolveCodes?_map_toNat (cs : List Char) : resolveCodes? (cs.map Char.toNat) = some cs := by
  induction cs with
  | nil => rfl
  | cons c cs ih =>
      obtain ⟨hhigh, hlow⟩ := isSurrogate_toNat c
      cases cs with
      | nil =>
          simp only [List.map_cons, List.map_nil, resolveCodes?, hhigh, hlow, Bool.or_self,
            Bool.false_eq_true, if_false, Char.ofNat_toNat]
      | cons d cs =>
          rw [List.map_cons] at ih
          rw [List.map_cons, List.map_cons, resolveCodes?, hhigh, hlow, ih, Char.ofNat_toNat]
          rfl

theorem resolveText?_codes (s : String) : resolveText? (codes s) = some s := by
  rw [resolveText?, codes, resolveCodes?_map_toNat, Option.map_some, String.ofList_toList]

/-! ### Trees -/

mutual

theorem resolve?_spelling : (j : Json) → j.floatFree = true → {limit : Nat} → j.nesting ≤ limit →
    resolve? limit j.spelling = some j
  | .null, _, _, _ => by rw [spelling, resolve?]
  | .bool b, _, _, _ => by rw [spelling, resolve?]
  | .number n, hj, _, _ => by
    rw [floatFree] at hj
    rw [spelling, resolve?, Number.ofLiteral?_literal hj]
    rfl
  | .string s, _, _, _ => by
    rw [spelling, resolve?, resolveText?_codes]
    rfl
  | .array xs, hj, limit, hlimit => by
    rw [floatFree] at hj
    rw [nesting] at hlimit
    obtain ⟨limit, rfl⟩ : ∃ i, limit = i + 1 := ⟨limit - 1, by omega⟩
    rw [spelling, resolve?, resolveItems?_spelling xs hj (by omega)]
    rfl
  | .object ms, hj, limit, hlimit => by
    rw [floatFree] at hj
    rw [nesting] at hlimit
    obtain ⟨limit, rfl⟩ : ∃ i, limit = i + 1 := ⟨limit - 1, by omega⟩
    rw [spelling, resolve?, resolveMembers?_spelling ms hj (by omega)]
    rfl

theorem resolveItems?_spelling : (xs : List Json) → floatFreeItems xs = true → {limit : Nat} →
    nestingItems xs ≤ limit → resolveItems? limit (spellingItems xs) = some xs
  | [], _, _, _ => by rw [spellingItems, resolveItems?]
  | x :: xs, hxs, limit, hlimit => by
    rw [floatFreeItems, Bool.and_eq_true] at hxs
    rw [nestingItems, Nat.max_le] at hlimit
    rw [spellingItems, resolveItems?, resolve?_spelling x hxs.1 hlimit.1,
      resolveItems?_spelling xs hxs.2 hlimit.2]
    rfl

theorem resolveMembers?_spelling : (ms : List (String × Json)) → floatFreeMembers ms = true →
    {limit : Nat} → nestingMembers ms ≤ limit →
    resolveMembers? limit (spellingMembers ms) = some ms
  | [], _, _, _ => by rw [spellingMembers, resolveMembers?]
  | (k, x) :: ms, hms, limit, hlimit => by
    rw [floatFreeMembers, Bool.and_eq_true] at hms
    rw [nestingMembers, Nat.max_le] at hlimit
    rw [spellingMembers, resolveMembers?, resolveText?_codes, resolve?_spelling x hms.1 hlimit.1,
      resolveMembers?_spelling ms hms.2 hlimit.2]
    rfl

end

mutual

/-- Whatever a concrete form means keeps to the limit. -/
theorem nesting_le_of_resolve? : (x : Concrete) → {limit : Nat} → {j : Json} →
    resolve? limit x = some j → j.nesting ≤ limit
  | .null, limit, j, h => by
    rw [resolve?] at h
    cases h
    exact Nat.zero_le limit
  | .bool b, limit, j, h => by
    rw [resolve?] at h
    cases h
    exact Nat.zero_le limit
  | .number l, limit, j, h => by
    rw [resolve?, Option.map_eq_some_iff] at h
    obtain ⟨n, -, rfl⟩ := h
    exact Nat.zero_le limit
  | .text cs, limit, j, h => by
    rw [resolve?, Option.map_eq_some_iff] at h
    obtain ⟨s, -, rfl⟩ := h
    exact Nat.zero_le limit
  | .array xs, 0, j, h => by
    rw [resolve?] at h
    cases h
  | .array xs, limit + 1, j, h => by
    rw [resolve?, Option.map_eq_some_iff] at h
    obtain ⟨ys, hys, rfl⟩ := h
    rw [nesting]
    exact Nat.succ_le_succ (nesting_le_of_resolveItems? xs hys)
  | .object ms, 0, j, h => by
    rw [resolve?] at h
    cases h
  | .object ms, limit + 1, j, h => by
    rw [resolve?, Option.map_eq_some_iff] at h
    obtain ⟨ns, hns, rfl⟩ := h
    rw [nesting]
    exact Nat.succ_le_succ (nesting_le_of_resolveMembers? ms hns)

theorem nesting_le_of_resolveItems? : (xs : List Concrete) → {limit : Nat} → {ys : List Json} →
    resolveItems? limit xs = some ys → nestingItems ys ≤ limit
  | [], limit, ys, h => by
    rw [resolveItems?] at h
    cases h
    exact Nat.zero_le limit
  | x :: xs, limit, ys, h => by
    rw [resolveItems?] at h
    obtain ⟨y, hy, h⟩ := Option.bind_eq_some_iff.1 h
    obtain ⟨zs, hzs, h⟩ := Option.bind_eq_some_iff.1 h
    cases h
    rw [nestingItems]
    exact Nat.max_le.2 ⟨nesting_le_of_resolve? x hy, nesting_le_of_resolveItems? xs hzs⟩

theorem nesting_le_of_resolveMembers? : (ms : List (List Nat × Concrete)) → {limit : Nat} →
    {ns : List (String × Json)} → resolveMembers? limit ms = some ns → nestingMembers ns ≤ limit
  | [], limit, ns, h => by
    rw [resolveMembers?] at h
    cases h
    exact Nat.zero_le limit
  | (name, x) :: ms, limit, ns, h => by
    rw [resolveMembers?] at h
    obtain ⟨k, -, h⟩ := Option.bind_eq_some_iff.1 h
    obtain ⟨y, hy, h⟩ := Option.bind_eq_some_iff.1 h
    obtain ⟨os, hos, h⟩ := Option.bind_eq_some_iff.1 h
    cases h
    rw [nestingMembers]
    exact Nat.max_le.2 ⟨nesting_le_of_resolve? x hy, nesting_le_of_resolveMembers? ms hos⟩

end

end Concrete

/-! ### Canonical forms -/

theorem insertMember_eq_cons {name : String} {x : Json} {ms : List (String × Json)}
    (h : Ascending ((name, x) :: ms)) : insertMember name x ms = (name, x) :: ms := by
  cases ms with
  | nil => rfl
  | cons m ms =>
      have hlt : compare name m.1 = .lt := (List.pairwise_cons.1 h).1 m.1 List.mem_cons_self
      rw [insertMember, hlt]

mutual

theorem canonical_eq_self : (j : Json) → j.Canonical → j.canonical = j
  | .null, _ | .bool _, _ | .number _, _ | .string _, _ => by rw [canonical]
  | .array xs, h => by
    rw [Canonical] at h
    rw [canonical, canonicalItems_eq_self xs h]
  | .object ms, h => by
    rw [Canonical] at h
    rw [canonical, canonicalMembers_eq_self ms h.1 h.2]

theorem canonicalItems_eq_self : (xs : List Json) → CanonicalItems xs → canonicalItems xs = xs
  | [], _ => by rw [canonicalItems]
  | x :: xs, h => by
    rw [CanonicalItems] at h
    rw [canonicalItems, canonical_eq_self x h.1, canonicalItems_eq_self xs h.2]

theorem canonicalMembers_eq_self : (ms : List (String × Json)) → Ascending ms →
    CanonicalMembers ms → canonicalMembers ms = ms
  | [], _, _ => by rw [canonicalMembers]
  | (k, x) :: ms, hnames, h => by
    have htail : Ascending ms := (List.pairwise_cons.1 hnames).2
    rw [CanonicalMembers] at h
    rw [canonicalMembers, canonical_eq_self x h.1, canonicalMembers_eq_self ms htail h.2,
      insertMember_eq_cons hnames]

end

theorem nestingMembers_insertMember_le (name : String) (x : Json) (ms : List (String × Json)) :
    nestingMembers (insertMember name x ms) ≤ max x.nesting (nestingMembers ms) := by
  induction ms with
  | nil => exact Nat.le_refl _
  | cons m ms ih =>
      obtain ⟨l, y⟩ := m
      rw [insertMember]
      split
      · exact Nat.le_refl _
      · exact Nat.le_max_right _ _
      · rw [nestingMembers, nestingMembers]
        omega

mutual

theorem nesting_canonical_le : (j : Json) → j.canonical.nesting ≤ j.nesting
  | .null | .bool _ | .number _ | .string _ => Nat.le_of_eq (by rw [canonical])
  | .array xs => by
    rw [canonical, nesting, nesting]
    exact Nat.succ_le_succ (nestingItems_canonical_le xs)
  | .object ms => by
    rw [canonical, nesting, nesting]
    exact Nat.succ_le_succ (nestingMembers_canonical_le ms)

theorem nestingItems_canonical_le : (xs : List Json) →
    nestingItems (canonicalItems xs) ≤ nestingItems xs
  | [] => Nat.le_refl _
  | x :: xs => by
    have hx := nesting_canonical_le x
    have hxs := nestingItems_canonical_le xs
    rw [canonicalItems, nestingItems, nestingItems]
    omega

theorem nestingMembers_canonical_le : (ms : List (String × Json)) →
    nestingMembers (canonicalMembers ms) ≤ nestingMembers ms
  | [] => Nat.le_refl _
  | (k, x) :: ms => by
    have hx := nesting_canonical_le x
    have hms := nestingMembers_canonical_le ms
    have hinsert := nestingMembers_insertMember_le k x.canonical (canonicalMembers ms)
    rw [canonicalMembers, nestingMembers]
    omega

end

end GraphDelta.Json
