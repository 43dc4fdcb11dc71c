/-
**What is written for a document, as it is read.**

The indented layout spells a tree in one way among many.  Reading it back gives the concrete form of
that spelling: every escape is undone, and every integer has the digits that it was written with.  Only
the spelling of integers is looked at here; trees with floating-point numbers are left out.

A value is followed by nothing, by a comma or by a line break, so that no number reads on into what
follows it.

Main definitions:

* `Json.codes`, `Json.Number.literal`, `Json.spelling` — the concrete forms of texts, numbers and trees;
* `Json.floatFree` — no number of the tree is a floating-point number;
* `Json.Follows` — what follows a value.

Main results:

* `Json.Concrete.quoted_escape` — **every character is read back from its escape**;
* `Json.Number.literal?_text`, `Json.Number.ofLiteral?_literal` — an integer is read back from its
  digits;
* `Json.Concrete.value_prettyChars`, `Json.Concrete.parse?_pretty` — **a tree is read as its concrete
  form**.
-/
import GraphDelta.Json.Concrete
import GraphDelta.Json.Printer
import Mathlib.Tactic.SplitIfs

set_option autoImplicit false

namespace GraphDelta.Json

variable {fuel : Nat} {rest : List Char} {n : Number}

/-! ### Texts -/

/-- The codes of the characters of a text. -/
def codes (s : String) : List Nat := s.toList.map Char.toNat

theorem quote_append (s : String) (rest : List Char) :
    quote s ++ rest = '"' :: (s.toList.flatMap escape ++ '"' :: rest) := by
  rw [quote, List.append_assoc]
  rfl

namespace Concrete

theorem hexDigit?_digitChar {n : Nat} (h : n < 16) : hexDigit? (Nat.digitChar n) = some n := by
  revert n
  decide

theorem hexCode?_digitChar {n : Nat} (h : n < 0x100) :
    hexCode? '0' '0' (Nat.digitChar (n / 16)) (Nat.digitChar (n % 16)) = some n := by
  have hzero : hexDigit? '0' = some 0 := by decide
  have hhigh := hexDigit?_digitChar (n := n / 16) (by omega)
  have hlow := hexDigit?_digitChar (n := n % 16) (by omega)
  simp only [hexCode?, hzero, hhigh, hlow, Option.bind_eq_bind, Option.bind_some, Option.pure_def,
    Option.some_inj]
  omega

theorem quoted_letter {c : Char} {code : Nat} (hu : c ≠ 'u') (hc : letterCode? c = some code)
    (rest : List Char) : quoted ('\\' :: c :: rest) =
      (quoted rest).map fun found => (code :: found.1, found.2) := by
  rw [quoted]
  · rw [hc]
    cases quoted rest <;> rfl
  · intro a b d e s h
    exact absurd h hu

theorem quoted_plain {c : Char} (hquote : c ≠ '"') (hslash : c ≠ '\\') (hlow : ¬ c.toNat < 0x20)
    (rest : List Char) : quoted (c :: rest) =
      (quoted rest).map fun found => (c.toNat :: found.1, found.2) := by
  rw [quoted]
  · rw [if_neg hlow]
    cases quoted rest <;> rfl
  · exact hquote
  · intro a b d e s h
    exact absurd h hslash
  · intro d s h
    exact absurd h hslash

/-- Every character is read back from what is written for it. -/
theorem quoted_escape (c : Char) (rest : List Char) :
    quoted (escape c ++ rest) = (quoted rest).map fun found => (c.toNat :: found.1, found.2) := by
  unfold escape
  split_ifs with h₁ h₂ h₃ h₄ h₅ h₆ h₇ hlow
  · rw [h₁]; exact quoted_letter (by decide) (by decide) rest
  · rw [h₂]; exact quoted_letter (by decide) (by decide) rest
  · rw [h₃]; exact quoted_letter (by decide) (by decide) rest
  · rw [h₄]; exact quoted_letter (by decide) (by decide) rest
  · rw [h₅]; exact quoted_letter (by decide) (by decide) rest
  · rw [h₆]; exact quoted_letter (by decide) (by decide) rest
  · rw [h₇]; exact quoted_letter (by decide) (by decide) rest
  · have hcode := hexCode?_digitChar (n := c.toNat) (by omega)
    simp only [List.cons_append, List.nil_append, quoted, hcode]
    cases quoted rest <;> rfl
  · exact quoted_plain h₁ h₂ hlow rest

theorem quoted_flatMap (s : String) (rest : List Char) :
    quoted (s.toList.flatMap escape ++ '"' :: rest) = some (codes s, rest) := by
  rw [codes]
  induction s.toList with
  | nil => rw [List.flatMap_nil, List.nil_append, quoted]; rfl
  | cons c cs ih => rw [List.flatMap_cons, List.append_assoc, quoted_escape, ih]; rfl

end Concrete

/-! ### Digits -/

/-- The decimal digits of a number, the first one first. -/
def decimal (n : Nat) : List Nat := (Nat.toDigits 10 n).map Concrete.digitValue

theorem digitValue_digitChar {n : Nat} (h : n < 10) : Concrete.digitValue (Nat.digitChar n) = n := by
  revert n
  decide

theorem decimal_of_lt {n : Nat} (h : n < 10) : decimal n = [n] := by
  rw [decimal, Nat.toDigits_of_lt_base h, List.map_singleton, digitValue_digitChar h]

theorem decimal_of_le {n : Nat} (h : 10 ≤ n) : decimal n = decimal (n / 10) ++ [n % 10] := by
  rw [decimal, Nat.toDigits_of_base_le (by decide) h, List.map_append, List.map_singleton,
    digitValue_digitChar (by omega), decimal]

theorem decimal_ne_nil (n : Nat) : decimal n ≠ [] := by
  rw [decimal, ne_eq, List.map_eq_nil_iff]
  exact Nat.toDigits_ne_nil

/-- No number but zero is written with a zero in front. -/
theorem eq_zero_of_decimal {n : Nat} {ds : List Nat} (h : decimal n = 0 :: ds) : n = 0 := by
  induction n using Nat.strongRecOn generalizing ds with
  | _ n ih =>
      rcases Nat.lt_or_ge n 10 with hlt | hle
      · rw [decimal_of_lt hlt] at h
        cases h
        rfl
      · rw [decimal_of_le hle] at h
        cases hd : decimal (n / 10) with
        | nil => exact absurd hd (decimal_ne_nil _)
        | cons d ds' =>
            rw [hd] at h
            cases h
            have hzero := ih (n / 10) (by omega) hd
            omega

theorem ofDigits_decimal (n : Nat) : Number.ofDigits (decimal n) = n := by
  induction n using Nat.strongRecOn with
  | _ n ih =>
      rcases Nat.lt_or_ge n 10 with hlt | hle
      · rw [decimal_of_lt hlt]
        exact Nat.zero_add n
      · have htens := ih (n / 10) (by omega)
        rw [Number.ofDigits] at htens ⊢
        rw [decimal_of_le hle, List.foldl_append, htens]
        exact Nat.div_add_mod' n 10

theorem toDigits_eq_cons (n : Nat) : ∃ c cs, Nat.toDigits 10 n = c :: cs ∧ c.isDigit = true := by
  obtain ⟨c, cs, hs⟩ := List.exists_cons_of_ne_nil (Nat.toDigits_ne_nil (b := 10) (n := n))
  have hmem : c ∈ Nat.toDigits 10 n := hs ▸ List.mem_cons_self
  exact ⟨c, cs, hs, Nat.isDigit_of_mem_toDigits (by decide) (by decide) hmem⟩

namespace Number

/-- Digits of a number below `2 ^ 64` are collected to the last. -/
theorem collect_eq {s : Nat} {ds : List Nat}
    (h : ds.foldl (fun n d => n * 10 + d) s < 0x10000000000000000) :
    collect s ds = (ds.foldl (fun n d => n * 10 + d) s, ds.length) := by
  induction ds generalizing s with
  | nil => rfl
  | cons d ds ih =>
      have hgrow (m : Nat) (ds : List Nat) : m ≤ ds.foldl (fun n d => n * 10 + d) m := by
        induction ds generalizing m with
        | nil => exact Nat.le_refl m
        | cons d ds ih => exact Nat.le_trans (by omega) (ih (m * 10 + d))
      rw [List.foldl_cons] at h
      rw [collect, if_pos (Nat.lt_of_le_of_lt (hgrow _ ds) h), ih h]
      rfl

theorem collect_decimal {n : Nat} (h : n < 0x10000000000000000) :
    collect 0 (decimal n) = (n, (decimal n).length) := by
  have hn : (decimal n).foldl (fun n d => n * 10 + d) 0 = n := ofDigits_decimal n
  rw [collect_eq (hn.symm ▸ h), hn]

end Number

/-! ### Integers -/

/-- What follows a value in an indented document. -/
inductive Follows : List Char → Prop
  | nil : Follows []
  | comma (rest : List Char) : Follows (',' :: rest)
  | newline (rest : List Char) : Follows ('\n' :: rest)

namespace Concrete

theorem digits_toDigits (n : Nat) (hrest : Follows rest) :
    digits (Nat.toDigits 10 n ++ rest) = (decimal n, rest) := by
  have hdigit : ∀ c ∈ Nat.toDigits 10 n, c.isDigit = true :=
    fun c hc => Nat.isDigit_of_mem_toDigits (by decide) (by decide) hc
  have hstop : rest.takeWhile Char.isDigit = [] ∧ rest.dropWhile Char.isDigit = rest := by
    cases hrest with
    | nil => exact ⟨rfl, rfl⟩
    | comma rest => exact ⟨rfl, rfl⟩
    | newline rest => exact ⟨rfl, rfl⟩
  rw [digits, List.takeWhile_append_of_pos hdigit, List.dropWhile_append_of_pos hdigit, hstop.1,
    hstop.2, List.append_nil, decimal]

theorem whole?_toDigits (n : Nat) (hrest : Follows rest) :
    whole? (Nat.toDigits 10 n ++ rest) = some (decimal n, rest) := by
  rw [whole?, digits_toDigits n hrest]
  split
  · rename_i h
    exact absurd (Prod.mk.inj h).1 (decimal_ne_nil n)
  · rename_i h
    have hds := (Prod.mk.inj h).1
    rw [eq_zero_of_decimal hds] at hds
    cases hds
  · rfl

theorem fraction?_follows (hrest : Follows rest) : fraction? rest = some (none, rest) := by
  cases hrest <;> rfl

theorem exponent?_follows (hrest : Follows rest) : exponent? rest = some (none, rest) := by
  cases hrest <;> rfl

theorem literal?_toDigits (n : Nat) (hrest : Follows rest) :
    literal? (Nat.toDigits 10 n ++ rest) = some (⟨false, decimal n, none, none⟩, rest) := by
  have hwhole := whole?_toDigits n hrest
  obtain ⟨c, cs, hs, hc⟩ := toDigits_eq_cons n
  rw [hs, List.cons_append] at hwhole ⊢
  rw [literal?]
  · simp only [hwhole, fraction?_follows hrest, exponent?_follows hrest, Option.bind_eq_bind,
      Option.bind_some, Option.pure_def]
  · rintro s ⟨⟩
    cases hc

theorem literal?_negative (n : Nat) (hrest : Follows rest) :
    literal? ('-' :: Nat.toDigits 10 n ++ rest) = some (⟨true, decimal n, none, none⟩, rest) := by
  simp only [literal?, List.cons_append, whole?_toDigits n hrest, fraction?_follows hrest,
    exponent?_follows hrest, Option.bind_eq_bind, Option.bind_some, Option.pure_def]

end Concrete

namespace Number

/-- Whether the number is an integer. -/
def isInteger : Number → Bool
  | .integer _ _ => true
  | .float _ => false

/-- The literal of a number; that of a floating-point number is read from its written form. -/
def literal : Number → Literal
  | .integer (.ofNat n) _ => ⟨false, decimal n, none, none⟩
  | .integer (.negSucc n) _ => ⟨true, decimal (n + 1), none, none⟩
  | .float x =>
    match Concrete.literal? x.text with
    | some (l, _) => l
    | none => ⟨false, [], none, none⟩

/-- What is written for an integer starts with a digit or a minus sign. -/
theorem text_eq_cons (hn : n.isInteger = true) :
    ∃ c cs, n.text = c :: cs ∧ (c.isDigit = true ∨ c = '-') := by
  cases n with
  | float x => cases hn
  | integer i hi =>
      cases i with
      | ofNat k =>
          obtain ⟨c, cs, hs, hc⟩ := toDigits_eq_cons k
          exact ⟨c, cs, hs, .inl hc⟩
      | negSucc k => exact ⟨'-', _, rfl, .inr rfl⟩

theorem literal?_text (hn : n.isInteger = true) (hrest : Follows rest) :
    Concrete.literal? (n.text ++ rest) = some (n.literal, rest) := by
  cases n with
  | float x => cases hn
  | integer i hi =>
      cases i with
      | ofNat k => exact Concrete.literal?_toDigits k hrest
      | negSucc k => exact Concrete.literal?_negative (k + 1) hrest

theorem ofLiteral?_literal (hn : n.isInteger = true) : ofLiteral? n.literal = some n := by
  cases n with
  | float x => cases hn
  | integer i hi =>
      cases i with
      | ofNat k =>
          have hk : k < 0x10000000000000000 := Int.ofNat_lt.1 hi.2
          simp only [literal, ofLiteral?, collect_decimal hk, Nat.sub_self, Nat.lt_irrefl, if_false,
            Bool.false_eq_true, hk, dite_true]
          rfl
      | negSucc k =>
          have hk : 0 < k + 1 ∧ k + 1 ≤ 0x8000000000000000 := by omega
          simp only [literal, ofLiteral?, collect_decimal (show k + 1 < 0x10000000000000000 by omega),
            Nat.sub_self, Nat.lt_irrefl, if_false, if_true, dif_pos hk]
          rfl

end Number

/-! ### Trees -/

mutual

/-- Whether no number of the tree is a floating-point number. -/
def floatFree : Json → Bool
  | .number n => n.isInteger
  | .array xs => floatFreeItems xs
  | .object ms => floatFreeMembers ms
  | .null | .bool _ | .string _ => true

/-- Whether all items are free of floating-point numbers. -/
def floatFreeItems : List Json → Bool
  | [] => true
  | x :: xs => floatFree x && floatFreeItems xs

/-- Whether all members are free of floating-point numbers. -/
def floatFreeMembers : List (String × Json) → Bool
  | [] => true
  | (_, x) :: ms => floatFree x && floatFreeMembers ms

end

mutual

/-- The concrete form of the document that is written for a tree. -/
def spelling : Json → Concrete
  | .null => .null
  | .bool b => .bool b
  | .number n => .number n.literal
  | .string s => .text (codes s)
  | .array xs => .array (spellingItems xs)
  | .object ms => .object (spellingMembers ms)

/-- The concrete forms of the items. -/
def spellingItems : List Json → List Concrete
  | [] => []
  | x :: xs => spelling x :: spellingItems xs

/-- The concrete forms of the members. -/
def spellingMembers : List (String × Json) → List (List Nat × Concrete)
  | [] => []
  | (k, x) :: ms => (codes k, spelling x) :: spellingMembers ms

end

theorem spellingItems_eq_map (xs : List Json) : spellingItems xs = xs.map spelling := by
  induction xs with
  | nil => rw [spellingItems]; rfl
  | cons x xs ih => rw [spellingItems, ih]; rfl

theorem floatFreeItems_map {α : Type} {f : α → Json} {l : List α}
    (h : ∀ a ∈ l, (f a).floatFree = true) : floatFreeItems (l.map f) = true := by
  induction l with
  | nil => rfl
  | cons a l ih =>
      rw [List.map_cons, floatFreeItems, h a List.mem_cons_self,
        ih fun b hb => h b (List.mem_cons_of_mem a hb)]
      rfl

theorem floatFree_ofInt (i : Int) : (ofInt i).floatFree = true := by
  rw [ofInt]
  split <;> rfl

/-! ### Blanks -/

namespace Concrete

theorem skipBlanks_skipBlanks (s : List Char) : skipBlanks (skipBlanks s) = skipBlanks s := by
  rw [skipBlanks, skipBlanks]
  induction s with
  | nil => rfl
  | cons c s ih =>
      rw [List.dropWhile_cons]
      split
      · exact ih
      · rename_i hc
        rw [List.dropWhile_cons, if_neg hc]

theorem skipBlanks_cons {c : Char} (hc : isBlank c = false) (s : List Char) :
    skipBlanks (c :: s) = c :: s := by
  rw [skipBlanks, List.dropWhile_cons, hc]
  rfl

theorem value_skipBlanks (fuel : Nat) (s : List Char) : value fuel (skipBlanks s) = value fuel s := by
  cases fuel with
  | zero => rfl
  | succ fuel => rw [value, value, skipBlanks_skipBlanks]

theorem members_skipBlanks (fuel : Nat) (s : List Char) :
    members fuel (skipBlanks s) = members fuel s := by
  cases fuel with
  | zero => rfl
  | succ fuel => rw [members, members, skipBlanks_skipBlanks]

theorem skipBlanks_newline (level : Nat) (s : List Char) :
    skipBlanks (newline level ++ s) = skipBlanks s := by
  refine List.dropWhile_append_of_pos fun c hc => ?_
  rcases List.mem_cons.1 hc with rfl | hc
  · rfl
  · rw [List.eq_of_mem_replicate hc]
    rfl

theorem value_newline (fuel level : Nat) (s : List Char) :
    value fuel (newline level ++ s) = value fuel s := by
  rw [← value_skipBlanks, skipBlanks_newline, value_skipBlanks]

theorem value_blank (fuel : Nat) (s : List Char) : value fuel (' ' :: s) = value fuel s := by
  have hskip : skipBlanks (' ' :: s) = skipBlanks s := rfl
  rw [← value_skipBlanks, hskip, value_skipBlanks]

theorem members_newline (fuel level : Nat) (s : List Char) :
    members fuel (newline level ++ s) = members fuel s := by
  rw [← members_skipBlanks, skipBlanks_newline, members_skipBlanks]

theorem isBlank_eq_false_of_isDigit {c : Char} (hc : c.isDigit = true) : isBlank c = false := by
  rw [Bool.eq_false_iff]
  intro hblank
  simp only [isBlank, Bool.or_eq_true, decide_eq_true_eq] at hblank
  rcases hblank with ((rfl | rfl) | rfl) | rfl <;> cases hc

end Concrete

/-! ### Reading what is written -/

/-- What is written for a tree starts with a character that is neither a blank nor a closing
bracket. -/
theorem prettyChars_eq_cons (level : Nat) {j : Json} (hj : j.floatFree = true) :
    ∃ c cs, j.prettyChars level = c :: cs ∧ Concrete.isBlank c = false ∧ c ≠ ']' := by
  cases j with
  | null => exact ⟨'n', _, by rw [prettyChars], by decide, by decide⟩
  | bool b => cases b <;> exact ⟨_, _, by rw [prettyChars], by decide, by decide⟩
  | string s => exact ⟨'"', _, by rw [prettyChars, quote]; rfl, by decide, by decide⟩
  | array xs =>
      cases xs with
      | nil => exact ⟨'[', _, by rw [prettyChars], by decide, by decide⟩
      | cons x xs => exact ⟨'[', _, by rw [prettyChars]; rfl, by decide, by decide⟩
  | object ms =>
      cases ms with
      | nil => exact ⟨'{', _, by rw [prettyChars], by decide, by decide⟩
      | cons m ms => exact ⟨'{', _, by rw [prettyChars]; rfl, by decide, by decide⟩
  | number n =>
      rw [floatFree] at hj
      obtain ⟨c, cs, htext, hc⟩ := Number.text_eq_cons hj
      rw [prettyChars]
      rcases hc with hc | rfl
      · refine ⟨c, cs, htext, Concrete.isBlank_eq_false_of_isDigit hc, ?_⟩
        rintro rfl
        cases hc
      · exact ⟨'-', cs, htext, by decide, by decide⟩

/-- After an item comes a comma or a line break. -/
theorem follows_prettyItems (level : Nat) (xs : List Json) (rest : List Char) :
    Follows (prettyItems level xs ++ rest) := by
  cases xs with
  | nil => exact .newline _
  | cons x xs => exact .comma _

theorem follows_prettyMembers (level : Nat) (ms : List (String × Json)) (rest : List Char) :
    Follows (prettyMembers level ms ++ rest) := by
  cases ms with
  | nil => exact .newline _
  | cons m ms => exact .comma _

namespace Concrete

theorem value_bracket {c : Char} (hc : isBlank c = false) (hne : c ≠ ']') (fuel level : Nat)
    (s : List Char) : value (fuel + 1) ('[' :: (newline level ++ c :: s)) =
      (items fuel (c :: s)).map fun found => (.array found.1, found.2) := by
  have hskip : skipBlanks (newline level ++ c :: s) = c :: s := by
    rw [skipBlanks_newline, skipBlanks_cons hc]
  rw [value, skipBlanks_cons (by decide)]
  simp only [hskip]
  split
  · rename_i h
    cases h
    exact absurd rfl hne
  · rfl

theorem value_brace (fuel level : Nat) (s : List Char) :
    value (fuel + 1) ('{' :: (newline level ++ '"' :: s)) =
      (members fuel ('"' :: s)).map fun found => (.object found.1, found.2) := by
  have hskip : skipBlanks (newline level ++ '"' :: s) = '"' :: s := by
    rw [skipBlanks_newline, skipBlanks_cons (by decide)]
  rw [value, skipBlanks_cons (by decide)]
  simp only [hskip]
  rfl

theorem value_number (hn : n.isInteger = true) (hrest : Follows rest) :
    value (fuel + 1) (n.text ++ rest) = some (.number n.literal, rest) := by
  have hread := Number.literal?_text hn hrest
  obtain ⟨c, cs, htext, hc⟩ := Number.text_eq_cons hn
  rw [htext, List.cons_append] at hread ⊢
  have hblank : isBlank c = false := by
    rcases hc with hc | rfl
    · exact isBlank_eq_false_of_isDigit hc
    · rfl
  rw [value, skipBlanks_cons hblank]
  -- neither a digit nor a minus sign starts a value of another kind
  split <;> simp_all

theorem value_quote (s : String) :
    value (fuel + 1) (quote s ++ rest) = some (.text (codes s), rest) := by
  rw [quote_append, value, skipBlanks_cons (by decide)]
  simp only [quoted_flatMap]
  rfl

/-- The name of a member is read in front of its value. -/
theorem members_quote (fuel : Nat) (k : String) (s : List Char) :
    members (fuel + 1) (quote k ++ ':' :: s) = (value fuel s).bind fun found =>
      match skipBlanks found.2 with
      | ',' :: rest =>
        (members fuel rest).bind fun more => some ((codes k, found.1) :: more.1, more.2)
      | '}' :: rest => some ([(codes k, found.1)], rest)
      | _ => none := by
  rw [quote_append, members, skipBlanks_cons (by decide)]
  simp only [quoted_flatMap, Option.bind_eq_bind, Option.bind_some,
    skipBlanks_cons (c := ':') (by decide)]
  rfl

mutual

/-- What is written for a tree is read as its concrete form.  Each value, item and member takes a
character at least, so that the bound may be the number of characters. -/
theorem value_prettyChars : (j : Json) → j.floatFree = true → (level fuel : Nat) →
    (j.prettyChars level).length ≤ fuel → (rest : List Char) → Follows rest →
    value fuel (j.prettyChars level ++ rest) = some (j.spelling, rest)
  | j, hj, level, 0, hfuel, _, _ => by
    obtain ⟨c, cs, hcs, -⟩ := prettyChars_eq_cons level hj
    rw [hcs] at hfuel
    cases hfuel
  | .null, _, level, fuel + 1, _, rest, _ => by
    rw [prettyChars, spelling]
    rfl
  | .bool true, _, level, fuel + 1, _, rest, _ => by
    rw [prettyChars, spelling]
    rfl
  | .bool false, _, level, fuel + 1, _, rest, _ => by
    rw [prettyChars, spelling]
    rfl
  | .number n, hj, level, fuel + 1, _, rest, hrest => by
    rw [floatFree] at hj
    rw [prettyChars, spelling, value_number hj hrest]
  | .string s, _, level, fuel + 1, _, rest, _ => by
    rw [prettyChars, spelling, value_quote]
  | .array [], _, level, fuel + 1, _, rest, _ => by
    rw [prettyChars, spelling, spellingItems]
    rfl
  | .array (x :: xs), hj, level, fuel + 1, hfuel, rest, _ => by
    rw [floatFree, floatFreeItems, Bool.and_eq_true] at hj
    rw [prettyChars] at hfuel
    simp only [newline, List.length_append, List.length_cons] at hfuel
    obtain ⟨fuel, rfl⟩ : ∃ i, fuel = i + 1 := ⟨fuel - 1, by omega⟩
    have hx := value_prettyChars x hj.1 (level + 1) fuel (by omega) (prettyItems level xs ++ rest)
      (follows_prettyItems level xs rest)
    have hxs := items_prettyItems xs hj.2 level fuel (by omega) rest hx
    obtain ⟨c, cs, hcs, hblank, hc⟩ := prettyChars_eq_cons (level + 1) hj.1
    rw [hcs, List.cons_append] at hxs
    rw [prettyChars, spelling, spellingItems, hcs]
    simp only [List.cons_append, List.append_assoc]
    rw [value_bracket hblank hc, hxs]
    rfl
  | .object [], _, level, fuel + 1, _, rest, _ => by
    rw [prettyChars, spelling, spellingMembers]
    rfl
  | .object ((k, x) :: ms), hj, level, fuel + 1, hfuel, rest, _ => by
    rw [floatFree, floatFreeMembers, Bool.and_eq_true] at hj
    rw [prettyChars] at hfuel
    simp only [newline, List.length_append, List.length_cons] at hfuel
    obtain ⟨fuel, rfl⟩ : ∃ i, fuel = i + 1 := ⟨fuel - 1, by omega⟩
    have hx := value_prettyChars x hj.1 (level + 1) fuel (by omega) (prettyMembers level ms ++ rest)
      (follows_prettyMembers level ms rest)
    have hms := members_prettyMembers ms hj.2 level fuel (by omega) rest k hx
    rw [quote_append] at hms
    rw [prettyChars, spelling, spellingMembers]
    simp only [List.cons_append, List.append_assoc]
    rw [quote_append, value_brace, hms]
    rfl

/-- Where one item has been read, the further ones are read, and the closing bracket. -/
theorem items_prettyItems : (xs : List Json) → floatFreeItems xs = true → (level fuel : Nat) →
    (prettyItems level xs).length ≤ fuel + 1 → (rest : List Char) → {x : Concrete} → {s : List Char} →
    value fuel s = some (x, prettyItems level xs ++ rest) →
    items (fuel + 1) s = some (x :: spellingItems xs, rest)
  | [], _, level, fuel, _, rest, x, s, hs => by
    rw [prettyItems, List.append_assoc] at hs
    rw [items, hs, Option.bind_eq_bind, Option.bind_some]
    simp only [skipBlanks_newline, skipBlanks_cons (c := ']') (by decide), List.singleton_append]
    rw [spellingItems]
    rfl
  | y :: ys, hys, level, fuel, hfuel, rest, x, s, hs => by
    rw [floatFreeItems, Bool.and_eq_true] at hys
    rw [prettyItems] at hfuel
    simp only [newline, List.length_append, List.length_cons] at hfuel
    obtain ⟨fuel, rfl⟩ : ∃ i, fuel = i + 1 := ⟨fuel - 1, by omega⟩
    have hy := value_prettyChars y hys.1 (level + 1) fuel (by omega) (prettyItems level ys ++ rest)
      (follows_prettyItems level ys rest)
    rw [← value_newline fuel (level + 1)] at hy
    have hitems := items_prettyItems ys hys.2 level fuel (by omega) rest hy
    rw [prettyItems] at hs
    simp only [List.cons_append, List.append_assoc] at hs
    rw [items, hs, Option.bind_eq_bind, Option.bind_some]
    simp only [skipBlanks_cons (c := ',') (by decide), hitems]
    rw [spellingItems]
    rfl

/-- Where the value of one member has been read, the further members are read, and the closing brace. -/
theorem members_prettyMembers : (ms : List (String × Json)) → floatFreeMembers ms = true →
    (level fuel : Nat) → (prettyMembers level ms).length ≤ fuel + 1 → (rest : List Char) →
    (k : String) → {x : Concrete} → {s : List Char} →
    value fuel s = some (x, prettyMembers level ms ++ rest) →
    members (fuel + 1) (quote k ++ ':' :: ' ' :: s) = some ((codes k, x) :: spellingMembers ms, rest)
  | [], _, level, fuel, _, rest, k, x, s, hs => by
    rw [prettyMembers, List.append_assoc] at hs
    rw [members_quote, value_blank, hs]
    simp only [Option.bind_some, skipBlanks_newline, skipBlanks_cons (c := '}') (by decide),
      List.singleton_append]
    rw [spellingMembers]
  | (l, y) :: ms, hms, level, fuel, hfuel, rest, k, x, s, hs => by
    rw [floatFreeMembers, Bool.and_eq_true] at hms
    rw [prettyMembers] at hfuel
    simp only [newline, List.length_append, List.length_cons] at hfuel
    obtain ⟨fuel, rfl⟩ : ∃ i, fuel = i + 1 := ⟨fuel - 1, by omega⟩
    have hy := value_prettyChars y hms.1 (level + 1) fuel (by omega) (prettyMembers level ms ++ rest)
      (follows_prettyMembers level ms rest)
    have hmembers := members_prettyMembers ms hms.2 level fuel (by omega) rest l hy
    rw [← members_newline _ (level + 1)] at hmembers
    rw [prettyMembers] at hs
    simp only [List.cons_append, List.append_assoc] at hs
    rw [members_quote, value_blank, hs]
    simp only [Option.bind_some, skipBlanks_cons (c := ',') (by decide), hmembers]
    rw [spellingMembers]

end

/-- What is written is read as the concrete form of the tree. -/
theorem parse?_pretty {j : Json} (hj : j.floatFree = true) : parse? j.pretty = some j.spelling := by
  have hvalue := value_prettyChars j hj 0 _ (Nat.le_succ _) [] .nil
  rw [List.append_nil] at hvalue
  rw [parse?, pretty, String.toList_ofList, Option.bind_eq_bind, hvalue]
  rfl

end Concrete

end GraphDelta.Json
