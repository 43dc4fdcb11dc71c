/-
**JSON values.**

A `Json` keeps the members of an object in the order given, repeated names included, which is what a
document writer needs.  A `Value` is what a document *means*: its objects are maps, so their members
ascend strictly by name.  Equality of values takes the two floating-point zeros for one number and is
an equivalence relation.

Main definitions:

* `Json` — the tree of a document;
* `Json.Canonical` — every object has strictly ascending names;
* `Json.canonical` — the tree with every object sorted, of members of one name the last;
* `Value` — a canonical tree;
* `Json.same`, and `==` on `Value` — equality of numbers, texts, lists and maps.

Main results:

* `Json.canonical_canonical` — sorting makes a tree canonical;
* `EquivBEq Value` — equality of values is an equivalence relation.
-/
import GraphDelta.Json.Number

set_option autoImplicit false

namespace GraphDelta

/-- The tree of a JSON document. -/
inductive Json where
  | null
  | bool (value : Bool)
  | number (value : Json.Number)
  | string (value : String)
  | array (items : List Json)
  | object (members : List (String × Json))
deriving Inhabited

namespace Json

/-! ### Decidable equality of trees -/

mutual

/-- Decides whether two trees are identical. -/
def decEq : (a b : Json) → Decidable (a = b)
  | .null, .null => isTrue rfl
  | .bool a, .bool b => if h : a = b then isTrue (by rw [h]) else isFalse (by simp [h])
  | .number a, .number b => if h : a = b then isTrue (by rw [h]) else isFalse (by simp [h])
  | .string a, .string b => if h : a = b then isTrue (by rw [h]) else isFalse (by simp [h])
  | .array xs, .array ys =>
    match decEqItems xs ys with
    | isTrue h => isTrue (by rw [h])
    | isFalse h => isFalse (by simp [h])
  | .object xs, .object ys =>
    match decEqMembers xs ys with
    | isTrue h => isTrue (by rw [h])
    | isFalse h => isFalse (by simp [h])
  | .null, .bool _ | .null, .number _ | .null, .string _ | .null, .array _ | .null, .object _
  | .bool _, .null | .bool _, .number _ | .bool _, .string _ | .bool _, .array _
  | .bool _, .object _ | .number _, .null | .number _, .bool _ | .number _, .string _
  | .number _, .array _ | .number _, .object _ | .string _, .null | .string _, .bool _
  | .string _, .number _ | .string _, .array _ | .string _, .object _ | .array _, .null
  | .array _, .bool _ | .array _, .number _ | .array _, .string _ | .array _, .object _
  | .object _, .null | .object _, .bool _ | .object _, .number _ | .object _, .string _
  | .object _, .array _ => isFalse (by simp)

def decEqItems : (xs ys : List Json) → Decidable (xs = ys)
  | [], [] => isTrue rfl
  | x :: xs, y :: ys =>
    match decEq x y, decEqItems xs ys with
    | isTrue h, isTrue hs => isTrue (by rw [h, hs])
    | isFalse h, _ => isFalse (by simp [h])
    | _, isFalse hs => isFalse (by simp [hs])
  | [], _ :: _ | _ :: _, [] => isFalse (by simp)

def decEqMembers : (xs ys : List (String × Json)) → Decidable (xs = ys)
  | [], [] => isTrue rfl
  | (k, x) :: xs, (l, y) :: ys =>
    if hk : k = l then
      match decEq x y, decEqMembers xs ys with
      | isTrue h, isTrue hs => isTrue (by rw [hk, h, hs])
      | isFalse h, _ => isFalse (by simp [h])
      | _, isFalse hs => isFalse (by simp [hs])
    else isFalse (by simp [hk])
  | [], _ :: _ | _ :: _, [] => isFalse (by simp)

end

instance : DecidableEq Json := decEq

/-! ### Equality of what trees mean -/

mutual

/-- Equality up to the sign of a floating-point zero. -/
def same : Json → Json → Bool
  | .null, .null => true
  | .bool a, .bool b => a == b
  | .number a, .number b => a.same b
  | .string a, .string b => a == b
  | .array xs, .array ys => sameItems xs ys
  | .object xs, .object ys => sameMembers xs ys
  | _, _ => false

def sameItems : List Json → List Json → Bool
  | [], [] => true
  | x :: xs, y :: ys => same x y && sameItems xs ys
  | _, _ => false

def sameMembers : List (String × Json) → List (String × Json) → Bool
  | [], [] => true
  | (k, x) :: xs, (l, y) :: ys => k == l && (same x y && sameMembers xs ys)
  | _, _ => false

end

mutual

theorem same_refl : (a : Json) → a.same a = true
  | .null => rfl
  | .bool _ => by simp [same]
  | .number a => by simp [same, Number.same_refl a]
  | .string _ => by simp [same]
  | .array xs => by simp [same, sameItems_refl xs]
  | .object xs => by simp [same, sameMembers_refl xs]

theorem sameItems_refl : (xs : List Json) → sameItems xs xs = true
  | [] => rfl
  | x :: xs => by simp [sameItems, same_refl x, sameItems_refl xs]

theorem sameMembers_refl : (xs : List (String × Json)) → sameMembers xs xs = true
  | [] => rfl
  | (_, x) :: xs => by simp [sameMembers, same_refl x, sameMembers_refl xs]

end

mutual

theorem same_symm : (a b : Json) → a.same b = true → b.same a = true
  | .null, b, h => by cases b <;> simp_all [same]
  | .bool _, b, h => by cases b <;> simp_all [same]
  | .number _, b, h => by
    cases b <;> simp only [same, Bool.false_eq_true] at h ⊢
    exact Number.same_symm h
  | .string _, b, h => by cases b <;> simp_all [same]
  | .array xs, b, h => by
    cases b <;> simp only [same, Bool.false_eq_true] at h ⊢
    exact sameItems_symm xs _ h
  | .object xs, b, h => by
    cases b <;> simp only [same, Bool.false_eq_true] at h ⊢
    exact sameMembers_symm xs _ h

theorem sameItems_symm : (xs ys : List Json) → sameItems xs ys = true → sameItems ys xs = true
  | [], ys, h => by cases ys <;> simp_all [sameItems]
  | x :: xs, ys, h => by
    cases ys with
    | nil => simp [sameItems] at h
    | cons y ys =>
      simp only [sameItems, Bool.and_eq_true] at h ⊢
      exact ⟨same_symm x y h.1, sameItems_symm xs ys h.2⟩

theorem sameMembers_symm : (xs ys : List (String × Json)) → sameMembers xs ys = true →
    sameMembers ys xs = true
  | [], ys, h => by cases ys <;> simp_all [sameMembers]
  | (_, x) :: xs, ys, h => by
    cases ys with
    | nil => simp [sameMembers] at h
    | cons y ys =>
      simp only [sameMembers, Bool.and_eq_true, beq_iff_eq] at h ⊢
      exact ⟨h.1.symm, same_symm x _ h.2.1, sameMembers_symm xs ys h.2.2⟩

end

mutual

theorem same_trans : (a b c : Json) → a.same b = true → b.same c = true → a.same c = true
  | .null, b, c, h₁, h₂ => by cases b <;> cases c <;> simp_all [same]
  | .bool _, b, c, h₁, h₂ => by cases b <;> cases c <;> simp_all [same]
  | .number _, b, c, h₁, h₂ => by
    cases b <;> cases c <;> simp only [same, Bool.false_eq_true] at h₁ h₂ ⊢
    exact Number.same_trans h₁ h₂
  | .string _, b, c, h₁, h₂ => by cases b <;> cases c <;> simp_all [same]
  | .array xs, b, c, h₁, h₂ => by
    cases b <;> cases c <;> simp only [same, Bool.false_eq_true] at h₁ h₂ ⊢
    exact sameItems_trans xs _ _ h₁ h₂
  | .object xs, b, c, h₁, h₂ => by
    cases b <;> cases c <;> simp only [same, Bool.false_eq_true] at h₁ h₂ ⊢
    exact sameMembers_trans xs _ _ h₁ h₂

theorem sameItems_trans : (xs ys zs : List Json) → sameItems xs ys = true →
    sameItems ys zs = true → sameItems xs zs = true
  | [], ys, zs, h₁, h₂ => by cases ys <;> cases zs <;> simp_all [sameItems]
  | x :: xs, ys, zs, h₁, h₂ => by
    cases ys with
    | nil => simp [sameItems] at h₁
    | cons y ys =>
      cases zs with
      | nil => simp [sameItems] at h₂
      | cons z zs =>
        simp only [sameItems, Bool.and_eq_true] at h₁ h₂ ⊢
        exact ⟨same_trans x y z h₁.1 h₂.1, sameItems_trans xs ys zs h₁.2 h₂.2⟩

theorem sameMembers_trans : (xs ys zs : List (String × Json)) → sameMembers xs ys = true →
    sameMembers ys zs = true → sameMembers xs zs = true
  | [], ys, zs, h₁, h₂ => by cases ys <;> cases zs <;> simp_all [sameMembers]
  | (_, x) :: xs, ys, zs, h₁, h₂ => by
    cases ys with
    | nil => simp [sameMembers] at h₁
    | cons y ys =>
      cases zs with
      | nil => simp [sameMembers] at h₂
      | cons z zs =>
        simp only [sameMembers, Bool.and_eq_true, beq_iff_eq] at h₁ h₂ ⊢
        exact ⟨h₁.1.trans h₂.1, same_trans x _ _ h₁.2.1 h₂.2.1,
          sameMembers_trans xs ys zs h₁.2.2 h₂.2.2⟩

end

/-! ### Canonical trees -/

/-- The names of the members ascend strictly. -/
def Ascending (members : List (String × Json)) : Prop :=
  (members.map Prod.fst).Pairwise fun a b => compare a b = .lt

mutual

/-- Every object of the tree has strictly ascending names. -/
def Canonical : Json → Prop
  | .array xs => CanonicalItems xs
  | .object ms => Ascending ms ∧ CanonicalMembers ms
  | _ => True

def CanonicalItems : List Json → Prop
  | [] => True
  | x :: xs => Canonical x ∧ CanonicalItems xs

def CanonicalMembers : List (String × Json) → Prop
  | [] => True
  | (_, x) :: ms => Canonical x ∧ CanonicalMembers ms

end

/-- Puts a member in its place among ascending ones; where the name is taken, the member that is there
stays. -/
def insertMember (name : String) (x : Json) : List (String × Json) → List (String × Json)
  | [] => [(name, x)]
  | (l, y) :: ms =>
    match compare name l with
    | .lt => (name, x) :: (l, y) :: ms
    | .eq => (l, y) :: ms
    | .gt => (l, y) :: insertMember name x ms

mutual

/-- The tree with the members of every object sorted by name; of members of one name the last is
kept. -/
def canonical : Json → Json
  | .array xs => .array (canonicalItems xs)
  | .object ms => .object (canonicalMembers ms)
  | .null => .null
  | .bool b => .bool b
  | .number n => .number n
  | .string s => .string s

def canonicalItems : List Json → List Json
  | [] => []
  | x :: xs => canonical x :: canonicalItems xs

/-- The members sorted by name, of one name the last. -/
def canonicalMembers : List (String × Json) → List (String × Json)
  | [] => []
  | (k, x) :: ms => insertMember k (canonical x) (canonicalMembers ms)

end

theorem mem_insertMember {name : String} {x : Json} {ms : List (String × Json)}
    {m : String × Json} (h : m ∈ insertMember name x ms) : m = (name, x) ∨ m ∈ ms := by
  fun_induction insertMember name x ms <;> grind

theorem ascending_insertMember {name : String} {x : Json} {ms : List (String × Json)}
    (h : Ascending ms) : Ascending (insertMember name x ms) := by
  induction ms with
  | nil => simp [insertMember, Ascending]
  | cons m ms ih =>
    obtain ⟨l, y⟩ := m
    simp only [Ascending, List.map_cons, List.pairwise_cons] at h
    unfold insertMember
    split
    · rename_i hlt
      simp only [Ascending, List.map_cons, List.pairwise_cons]
      refine ⟨?_, h⟩
      intro b hb
      rcases List.mem_cons.1 hb with rfl | hb
      · exact hlt
      · exact Std.TransCmp.lt_trans hlt (h.1 b hb)
    · simpa [Ascending] using h
    · rename_i hgt
      simp only [Ascending, List.map_cons, List.pairwise_cons]
      refine ⟨?_, ih h.2⟩
      intro b hb
      obtain ⟨m, hm, rfl⟩ := List.mem_map.1 hb
      rcases mem_insertMember hm with rfl | hm
      · exact Std.OrientedCmp.gt_iff_lt.1 hgt
      · exact h.1 _ (List.mem_map_of_mem hm)

theorem canonicalMembers_insertMember {name : String} {x : Json} {ms : List (String × Json)}
    (hx : Canonical x) (h : CanonicalMembers ms) : CanonicalMembers (insertMember name x ms) := by
  fun_induction insertMember name x ms <;> simp_all [CanonicalMembers]

mutual

/-- Sorting makes a tree canonical. -/
theorem canonical_canonical : (a : Json) → Canonical (canonical a)
  | .array xs => by simpa only [canonical, Canonical] using canonicalItems_canonical xs
  | .object ms => by simpa only [canonical, Canonical] using canonicalMembers_canonical ms
  | .null | .bool _ | .number _ | .string _ => by simp [canonical, Canonical]

theorem canonicalItems_canonical : (xs : List Json) → CanonicalItems (canonicalItems xs)
  | [] => by simp [canonicalItems, CanonicalItems]
  | x :: xs => by
    simpa only [canonicalItems, CanonicalItems] using
      ⟨canonical_canonical x, canonicalItems_canonical xs⟩

theorem canonicalMembers_canonical : (ms : List (String × Json)) →
    Ascending (canonicalMembers ms) ∧ CanonicalMembers (canonicalMembers ms)
  | [] => by simp [canonicalMembers, CanonicalMembers, Ascending]
  | (k, x) :: ms => by
    have h := canonicalMembers_canonical ms
    rw [canonicalMembers]
    exact ⟨ascending_insertMember h.1, canonicalMembers_insertMember (canonical_canonical x) h.2⟩

end

/-! ### Access -/

/-- The last member of the given name. -/
def member? (name : String) : Json → Option Json
  | .object ms => ms.reverse.lookup name
  | _ => none

def toInt? : Json → Option Int
  | .number (.integer n _) => some n
  | _ => none

/-- The tree of an integer of 64 bits; integers out of that range have none and read as null. -/
def ofInt (n : Int) : Json :=
  if h : -0x8000000000000000 ≤ n ∧ n < 0x10000000000000000 then .number (.integer n h) else .null

end Json

/-! ### Values -/

/-- A JSON value: a tree whose objects are maps, listed by strictly ascending name. -/
structure Value where
  json : Json
  canonical : json.Canonical

namespace Value

theorem ext {a b : Value} (h : a.json = b.json) : a = b := by
  cases a; cases b; simp_all

instance : DecidableEq Value := fun a b =>
  if h : a.json = b.json then isTrue (ext h) else isFalse fun h' => h (congrArg json h')

/-- The value that a tree means. -/
def ofJson (j : Json) : Value := ⟨j.canonical, j.canonical_canonical⟩

def null : Value := ⟨.null, by simp [Json.Canonical]⟩

def ofText (s : String) : Value := ⟨.string s, by simp [Json.Canonical]⟩

instance : Inhabited Value := ⟨null⟩

def isNull (a : Value) : Bool := a.json matches .null

/-- Equality of values: the two floating-point zeros are one number. -/
instance : BEq Value := ⟨fun a b => a.json.same b.json⟩

theorem beq_def (a b : Value) : (a == b) = a.json.same b.json := rfl

instance : EquivBEq Value where
  rfl {a} := a.json.same_refl
  symm {a b} h := a.json.same_symm b.json h
  trans {a b c} h₁ h₂ := a.json.same_trans b.json c.json h₁ h₂

end Value

end GraphDelta
