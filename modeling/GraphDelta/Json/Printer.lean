/-
**Writing JSON documents.**

There are two layouts.  The compact one has no blanks at all.  The indented one puts every item and
member on a line of its own, two spaces deeper than its container, and a blank after the colon; an
empty list or object stays on one line.  Within a text, the quote, the backslash and the characters
below the blank are escaped, the commoner ones by a letter, and nothing else is.

Main definitions:

* `Json.escape`, `Json.quote` — a character and a text as they are written;
* `Json.compact` — the compact layout;
* `Json.pretty` — the indented layout.
-/
import GraphDelta.Json.Basic

set_option autoImplicit false

namespace GraphDelta.Json

/-! ### Texts -/

def escape (c : Char) : List Char :=
  if c = '"' then ['\\', '"']
  else if c = '\\' then ['\\', '\\']
  else if c = '\x08' then ['\\', 'b']
  else if c = '\t' then ['\\', 't']
  else if c = '\n' then ['\\', 'n']
  else if c = '\x0c' then ['\\', 'f']
  else if c = '\r' then ['\\', 'r']
  else if c.toNat < 0x20 then
    ['\\', 'u', '0', '0', Nat.digitChar (c.toNat / 16), Nat.digitChar (c.toNat % 16)]
  else [c]

def quote (s : String) : List Char := '"' :: s.toList.flatMap escape ++ ['"']

/-! ### Compact layout -/

mutual

/-- The compact layout of a tree. -/
def compactChars : Json → List Char
  | .null => ['n', 'u', 'l', 'l']
  | .bool true => ['t', 'r', 'u', 'e']
  | .bool false => ['f', 'a', 'l', 's', 'e']
  | .number n => n.text
  | .string s => quote s
  | .array [] => ['[', ']']
  | .array (x :: xs) => '[' :: compactChars x ++ compactItems xs
  | .object [] => ['{', '}']
  | .object ((k, x) :: ms) => '{' :: quote k ++ ':' :: compactChars x ++ compactMembers ms

/-- The further items of a list, and its closing bracket. -/
def compactItems : List Json → List Char
  | [] => [']']
  | x :: xs => ',' :: compactChars x ++ compactItems xs

/-- The further members of an object, and its closing brace. -/
def compactMembers : List (String × Json) → List Char
  | [] => ['}']
  | (k, x) :: ms => ',' :: quote k ++ ':' :: compactChars x ++ compactMembers ms

end

/-- The document without blanks. -/
def compact (j : Json) : String := String.ofList j.compactChars

/-! ### Indented layout -/

def newline (level : Nat) : List Char := '\n' :: List.replicate (2 * level) ' '

mutual

/-- The indented layout of a tree that stands at the given nesting level. -/
def prettyChars (level : Nat) : Json → List Char
  | .null => ['n', 'u', 'l', 'l']
  | .bool true => ['t', 'r', 'u', 'e']
  | .bool false => ['f', 'a', 'l', 's', 'e']
  | .number n => n.text
  | .string s => quote s
  | .array [] => ['[', ']']
  | .array (x :: xs) =>
    '[' :: newline (level + 1) ++ prettyChars (level + 1) x ++ prettyItems level xs
  | .object [] => ['{', '}']
  | .object ((k, x) :: ms) =>
    '{' :: newline (level + 1) ++ quote k ++ ':' :: ' ' :: prettyChars (level + 1) x ++
      prettyMembers level ms

def prettyItems (level : Nat) : List Json → List Char
  | [] => newline level ++ [']']
  | x :: xs => ',' :: newline (level + 1) ++ prettyChars (level + 1) x ++ prettyItems level xs

def prettyMembers (level : Nat) : List (String × Json) → List Char
  | [] => newline level ++ ['}']
  | (k, x) :: ms =>
    ',' :: newline (level + 1) ++ quote k ++ ':' :: ' ' :: prettyChars (level + 1) x ++
      prettyMembers level ms

end

/-- The document with one item or member a line. -/
def pretty (j : Json) : String := String.ofList (j.prettyChars 0)

end GraphDelta.Json
