/-
**Numbers, truth values and dates of TOML documents.**

The grammar of the values that are neither texts nor lists nor tables.  Digits may be grouped by
single underscores; an integer must fit 64 bits with a sign, and a positive number must not be too
large to be finite.  A date must exist in the calendar.  Only the place where a value ends is of
interest, so every reader here answers with what is left of the document.

Main definitions:

* `Toml.integer?`, `Toml.float?` — numbers;
* `Toml.dateTime?` — dates, times of day, and both;
* `Toml.scalar?` — any of these, or a truth value.
-/
import GraphDelta.Binary64

set_option autoImplicit false

namespace GraphDelta.Toml

/-! ### Digits -/

/-- Reads digits of the given kind with single underscores between them; at least one digit. -/
def digitGroup? (isDigit : Char → Bool) : List Char → Option (List Char × List Char)
  | [] => none
  | c :: rest =>
    if isDigit c then
      let more := match rest with
        | '_' :: rest => digitGroup? isDigit rest
        | rest => digitGroup? isDigit rest
      match more with
      | some (ds, rest) => some (c :: ds, rest)
      | none => some ([c], rest)
    else none

def ofDigits (base : Nat) (ds : List Char) : Nat :=
  ds.foldl (fun n c =>
    n * base + (if c.isDigit then c.toNat - '0'.toNat else c.toLower.toNat - 'a'.toNat + 10)) 0

/-- Drops a sign, if there is one, and tells whether it is a minus. -/
def sign : List Char → Bool × List Char
  | '-' :: rest => (true, rest)
  | '+' :: rest => (false, rest)
  | s => (false, s)

/-- Reads a whole number: zero, or digits that do not start with zero. -/
def decimal? : List Char → Option (List Char × List Char)
  | '0' :: rest => some (['0'], rest)
  | s => digitGroup? Char.isDigit s

/-! ### Integers -/

/-- Reads the digits of an integer in a base other than ten. -/
def based? (base : Nat) (isDigit : Char → Bool) (s : List Char) : Option (List Char) := do
  let (ds, rest) ← digitGroup? isDigit s
  if ofDigits base ds < 0x8000000000000000 then some rest else none

def isHexDigit (c : Char) : Bool :=
  c.isDigit || ('a' ≤ c && c ≤ 'f') || ('A' ≤ c && c ≤ 'F')

/-- Reads an integer of 64 bits with a sign. -/
def integer? (s : List Char) : Option (List Char) :=
  match s with
  | '0' :: 'x' :: rest => based? 16 isHexDigit rest
  | '0' :: 'o' :: rest => based? 8 (fun c => '0' ≤ c && c ≤ '7') rest
  | '0' :: 'b' :: rest => based? 2 (fun c => c = '0' || c = '1') rest
  | s => do
    let (negative, s) := sign s
    let (ds, rest) ← decimal? s
    let n := ofDigits 10 ds
    if n < 0x8000000000000000 ∨ (negative ∧ n = 0x8000000000000000) then some rest else none

/-! ### Floating-point numbers -/

def exponent? (s : List Char) : Option (Int × List Char) :=
  match s with
  | c :: rest =>
    if c = 'e' ∨ c = 'E' then do
      let (negative, rest) := sign rest
      let (ds, rest) ← digitGroup? Char.isDigit rest
      let n : Int := ofDigits 10 ds
      return (if negative then -n else n, rest)
    else none
  | [] => none

/-- Reads a fraction and an exponent, or an exponent alone: the digits of the fraction, and the
exponent. -/
def fractionOrExponent? (s : List Char) : Option (List Char × Int × List Char) :=
  match s with
  | '.' :: rest => do
    let (ds, rest) ← digitGroup? Char.isDigit rest
    match exponent? rest with
    | some (e, rest) => some (ds, e, rest)
    | none => some (ds, 0, rest)
  | s => (exponent? s).map fun (e, rest) => ([], e, rest)

/-- Whether the digits, read as an integer and multiplied by a power of ten, round to a finite
number.  Powers far out are decided by the number of digits alone. -/
def isFinite (digits : List Char) (exponent : Int) : Bool :=
  let n := ofDigits 10 digits
  if n = 0 ∨ digits.length + exponent < 300 then true
  else if 400 + digits.length < exponent then false
  else
    match exponent with
    | .ofNat k => (Binary64.roundRatio false (n * Nat.pow 10 k) 1).isSome
    | .negSucc k => (Binary64.roundRatio false n (Nat.pow 10 (k + 1))).isSome

/-- Reads a floating-point number; the words for infinity and for no number count as such. -/
def float? (s : List Char) : Option (List Char) :=
  let (negative, s) := sign s
  match s with
  | 'i' :: 'n' :: 'f' :: rest => some rest
  | 'n' :: 'a' :: 'n' :: rest => some rest
  | s => do
    let (whole, rest) ← decimal? s
    let (fraction, exponent, rest) ← fractionOrExponent? rest
    if negative ∨ isFinite (whole ++ fraction) (exponent - fraction.length) then some rest else none

/-! ### Dates and times -/

def digits? (count : Nat) (s : List Char) : Option (Nat × List Char) :=
  let ds := s.take count
  if ds.length = count ∧ ds.all Char.isDigit then some (ofDigits 10 ds, s.drop count) else none

def expect? (c : Char) : List Char → Option (List Char)
  | d :: rest => if d = c then some rest else none
  | [] => none

def daysIn (year month : Nat) : Nat :=
  if month = 2 then
    if year % 4 = 0 ∧ (year % 100 ≠ 0 ∨ year % 400 = 0) then 29 else 28
  else if month ∈ [4, 6, 9, 11] then 30
  else 31

def date? (s : List Char) : Option (List Char) := do
  let (year, s) ← digits? 4 s
  let (month, s) ← digits? 2 (← expect? '-' s)
  let (day, s) ← digits? 2 (← expect? '-' s)
  if 1 ≤ month ∧ month ≤ 12 ∧ 1 ≤ day ∧ day ≤ daysIn year month then some s else none

def clock? (s : List Char) : Option (List Char) := do
  let (hour, s) ← digits? 2 s
  let (minute, s) ← digits? 2 (← expect? ':' s)
  if hour ≤ 23 ∧ minute ≤ 59 then some s else none

/-- Reads a time of day with its seconds; a second of that number may be a leap second. -/
def time? (s : List Char) : Option (List Char) := do
  let (second, s) ← digits? 2 (← expect? ':' (← clock? s))
  if second ≤ 60 then
    match s with
    | '.' :: c :: rest => if c.isDigit then some (rest.dropWhile Char.isDigit) else none
    | s => some s
  else none

def offset? : List Char → Option (List Char)
  | 'Z' :: rest => some rest
  | 'z' :: rest => some rest
  | '+' :: rest => clock? rest
  | '-' :: rest => clock? rest
  | _ => none

/-- Reads the time of day after a date, if there is one. -/
def timeAfterDate (s : List Char) : List Char :=
  match s with
  | c :: rest =>
    if c = 'T' ∨ c = 't' ∨ c = ' ' then
      match time? rest with
      | some rest => (offset? rest).getD rest
      | none => s
    else s
  | [] => s

/-- Reads a date, a time of day, or both. -/
def dateTime? (s : List Char) : Option (List Char) :=
  match date? s with
  | some rest => some (timeAfterDate rest)
  | none => time? s

/-! ### Any scalar -/

/-- Reads a number, a truth value or a date. -/
def scalar? (s : List Char) : Option (List Char) :=
  match s with
  | 't' :: 'r' :: 'u' :: 'e' :: rest => some rest
  | 'f' :: 'a' :: 'l' :: 's' :: 'e' :: rest => some rest
  | s => (dateTime? s).or <| (float? s).or (integer? s)

end GraphDelta.Toml
