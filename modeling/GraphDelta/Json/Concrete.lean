/-
**The concrete form of a JSON document.**

Reading happens in two steps.  The first, here, checks the grammar alone and keeps every number and
text as it is spelled: a number may be too large, an escape may name half of a surrogate pair, and
nesting is not limited.  What a document means is decided afterwards, on the concrete form, so that a
part of a document that nobody asks for has to be grammatical and nothing more.

Main definitions:

* `Json.Concrete` — a document as it is spelled;
* `Json.Concrete.quoted`, `Json.Concrete.literal?` — texts and numbers;
* `Json.Concrete.parse?` — the concrete form of a document.
-/
import GraphDelta.Json.Number

set_option autoImplicit false

namespace GraphDelta.Json

/-- A document as it is spelled.  A text is a list of code numbers: a character stands for its code
point and an escape for its sixteen bits, be they half of a surrogate pair. -/
inductive Concrete where
  | null
  | bool (value : Bool)
  | number (literal : Literal)
  | text (codes : List Nat)
  | array (items : List Concrete)
  | object (members : List (List Nat × Concrete))
deriving Inhabited

namespace Concrete

/-! ### Texts -/

def hexDigit? (c : Char) : Option Nat :=
  let n := c.toNat
  if '0'.toNat ≤ n ∧ n ≤ '9'.toNat then some (n - '0'.toNat)
  else if 'a'.toNat ≤ n ∧ n ≤ 'f'.toNat then some (n - 'a'.toNat + 10)
  else if 'A'.toNat ≤ n ∧ n ≤ 'F'.toNat then some (n - 'A'.toNat + 10)
  else none

/-- The code of four hexadecimal digits. -/
def hexCode? (a b c d : Char) : Option Nat := do
  let a ← hexDigit? a
  let b ← hexDigit? b
  let c ← hexDigit? c
  let d ← hexDigit? d
  return ((a * 16 + b) * 16 + c) * 16 + d

/-- The code of an escape of one letter. -/
def letterCode? (c : Char) : Option Nat :=
  if c = '"' ∨ c = '\\' ∨ c = '/' then some c.toNat
  else if c = 'b' then some 0x08
  else if c = 'f' then some 0x0c
  else if c = 'n' then some 0x0a
  else if c = 'r' then some 0x0d
  else if c = 't' then some 0x09
  else none

/-- Reads a text up to and with its closing quote; a character below the blank must be escaped. -/
def quoted : List Char → Option (List Nat × List Char)
  | '"' :: rest => some ([], rest)
  | '\\' :: 'u' :: a :: b :: c :: d :: rest => do
    let code ← hexCode? a b c d
    let (codes, rest) ← quoted rest
    return (code :: codes, rest)
  | '\\' :: c :: rest => do
    let code ← letterCode? c
    let (codes, rest) ← quoted rest
    return (code :: codes, rest)
  | c :: rest =>
    if c.toNat < 0x20 then none
    else do
      let (codes, rest) ← quoted rest
      return (c.toNat :: codes, rest)
  | [] => none

/-! ### Numbers -/

def digitValue (c : Char) : Nat := c.toNat - '0'.toNat

/-- Splits off the digits in front, as many as there are. -/
def digits (s : List Char) : List Nat × List Char :=
  ((s.takeWhile Char.isDigit).map digitValue, s.dropWhile Char.isDigit)

def digits1? (s : List Char) : Option (List Nat × List Char) :=
  match digits s with
  | ([], _) => none
  | found => some found

/-- Reads the whole part: one zero, or digits that do not start with zero. -/
def whole? (s : List Char) : Option (List Nat × List Char) :=
  match digits s with
  | ([], _) => none
  | (0 :: _ :: _, _) => none
  | found => some found

def fraction? : List Char → Option (Option (List Nat) × List Char)
  | '.' :: rest => (digits1? rest).map fun (ds, rest) => (some ds, rest)
  | s => some (none, s)

def exponent? (s : List Char) : Option (Option (Bool × List Nat) × List Char) :=
  match s with
  | c :: rest =>
    if c = 'e' ∨ c = 'E' then
      match rest with
      | '-' :: rest => (digits1? rest).map fun (ds, rest) => (some (true, ds), rest)
      | '+' :: rest => (digits1? rest).map fun (ds, rest) => (some (false, ds), rest)
      | rest => (digits1? rest).map fun (ds, rest) => (some (false, ds), rest)
    else some (none, s)
  | [] => some (none, s)

def literal? (s : List Char) : Option (Literal × List Char) := do
  let (negative, s) := match s with
    | '-' :: rest => (true, rest)
    | s => (false, s)
  let (whole, s) ← whole? s
  let (fraction, s) ← fraction? s
  let (exponent, s) ← exponent? s
  return (⟨negative, whole, fraction, exponent⟩, s)

/-! ### Documents -/

/-- The characters that may stand between the parts of a document. -/
def isBlank (c : Char) : Bool := c = ' ' || c = '\n' || c = '\r' || c = '\t'

def skipBlanks (s : List Char) : List Char := s.dropWhile isBlank

mutual

/-- Reads a value.  The first argument bounds the number of values, items and members read. -/
def value : Nat → List Char → Option (Concrete × List Char)
  | 0, _ => none
  | fuel + 1, s =>
    match skipBlanks s with
    | 'n' :: 'u' :: 'l' :: 'l' :: rest => some (.null, rest)
    | 't' :: 'r' :: 'u' :: 'e' :: rest => some (.bool true, rest)
    | 'f' :: 'a' :: 'l' :: 's' :: 'e' :: rest => some (.bool false, rest)
    | '"' :: rest => (quoted rest).map fun (codes, rest) => (.text codes, rest)
    | '[' :: rest =>
      match skipBlanks rest with
      | ']' :: rest => some (.array [], rest)
      | rest => (items fuel rest).map fun (xs, rest) => (.array xs, rest)
    | '{' :: rest =>
      match skipBlanks rest with
      | '}' :: rest => some (.object [], rest)
      | rest => (members fuel rest).map fun (ms, rest) => (.object ms, rest)
    | rest => (literal? rest).map fun (l, rest) => (.number l, rest)

/-- Reads the items of a list that is not empty, and its closing bracket. -/
def items : Nat → List Char → Option (List Concrete × List Char)
  | 0, _ => none
  | fuel + 1, s => do
    let (x, s) ← value fuel s
    match skipBlanks s with
    | ',' :: rest =>
      let (xs, rest) ← items fuel rest
      return (x :: xs, rest)
    | ']' :: rest => return ([x], rest)
    | _ => none

/-- Reads the members of an object that is not empty, and its closing brace. -/
def members : Nat → List Char → Option (List (List Nat × Concrete) × List Char)
  | 0, _ => none
  | fuel + 1, s =>
    match skipBlanks s with
    | '"' :: rest => do
      let (name, s) ← quoted rest
      match skipBlanks s with
      | ':' :: rest =>
        let (x, s) ← value fuel rest
        match skipBlanks s with
        | ',' :: rest =>
          let (ms, rest) ← members fuel rest
          return ((name, x) :: ms, rest)
        | '}' :: rest => return ([(name, x)], rest)
        | _ => none
      | _ => none
    | _ => none

end

/-- The concrete form of a document: one value with nothing but blanks around it. -/
def parse? (text : String) : Option Concrete := do
  let s := text.toList
  let (x, rest) ← value (s.length + 1) s
  if (skipBlanks rest).isEmpty then some x else none

end Concrete

end GraphDelta.Json
