/-
**Texts and keys of TOML documents.**

A text stands between quotes, with escapes, or between apostrophes, without; between three of either
it may run over several lines.  No control character but the tabulator may stand in a document outside
its line ends.

Main definitions:

* `Toml.isShown` — the characters that may stand in a text or a comment;
* `Toml.text?` — reads a text;
* `Toml.dottedKey?` — reads a key of several parts.
-/

set_option autoImplicit false

namespace GraphDelta.Toml

/-! ### Blanks and lines -/

/-- The characters that may stand as themselves in texts and comments. -/
def isShown (c : Char) : Bool := c = '\t' || (0x20 ≤ c.toNat && c.toNat ≠ 0x7f)

def skipBlanks (s : List Char) : List Char := s.dropWhile fun c => c = ' ' || c = '\t'

def newline? : List Char → Option (List Char)
  | '\n' :: rest => some rest
  | '\r' :: '\n' :: rest => some rest
  | _ => none

def skipComment : List Char → List Char
  | '#' :: rest => rest.dropWhile isShown
  | s => s

/-- Drops blanks and the ends of lines. -/
def skipBlankLines : List Char → List Char
  | ' ' :: rest => skipBlankLines rest
  | '\t' :: rest => skipBlankLines rest
  | '\n' :: rest => skipBlankLines rest
  | '\r' :: '\n' :: rest => skipBlankLines rest
  | s => s

/-! ### Escapes -/

def hexValue? (c : Char) : Option Nat :=
  if c.isDigit then some (c.toNat - '0'.toNat)
  else if 'a' ≤ c ∧ c ≤ 'f' then some (c.toNat - 'a'.toNat + 10)
  else if 'A' ≤ c ∧ c ≤ 'F' then some (c.toNat - 'A'.toNat + 10)
  else none

/-- Reads a code of exactly `count` hexadecimal digits. -/
def codePoint? (count : Nat) (s : List Char) : Option (Char × List Char) := do
  let ds ← (s.take count).mapM hexValue?
  let n := ds.foldl (fun n d => n * 16 + d) 0
  if ds.length = count ∧ n.isValidChar then some (Char.ofNat n, s.drop count) else none

def escape? : List Char → Option (Char × List Char)
  | 'b' :: rest => some ('\x08', rest)
  | 't' :: rest => some ('\t', rest)
  | 'n' :: rest => some ('\n', rest)
  | 'f' :: rest => some ('\x0c', rest)
  | 'r' :: rest => some ('\r', rest)
  | '"' :: rest => some ('"', rest)
  | '\\' :: rest => some ('\\', rest)
  | 'u' :: rest => codePoint? 4 rest
  | 'U' :: rest => codePoint? 8 rest
  | _ => none

/-! ### Texts on one line -/

/-- Reads a text with escapes up to its closing quote.  The number bounds the characters. -/
def basic? : Nat → List Char → Option (List Char × List Char)
  | 0, _ => none
  | _ + 1, [] => none
  | fuel + 1, c :: rest =>
    if c = '"' then some ([], rest)
    else if c = '\\' then do
      let (d, rest) ← escape? rest
      let (cs, rest) ← basic? fuel rest
      return (d :: cs, rest)
    else if isShown c then do
      let (cs, rest) ← basic? fuel rest
      return (c :: cs, rest)
    else none

/-- Reads a text without escapes up to its closing apostrophe. -/
def literal? (s : List Char) : Option (List Char × List Char) :=
  let inside (c : Char) : Bool := isShown c && c ≠ '\''
  match s.dropWhile inside with
  | '\'' :: rest => some (s.takeWhile inside, rest)
  | _ => none

/-! ### Texts over several lines -/

/-- Drops the end of a line after a backslash, with the blanks around it and the blank lines after
it. -/
def continuation? (s : List Char) : Option (List Char) :=
  (newline? (skipBlanks s)).map skipBlankLines

/-- Reads a text between three quotes or apostrophes, after the first three.  Up to two quotes may
stand in front of the closing three.  The number bounds the characters. -/
def multiline? (quote : Char) (escapes : Bool) : Nat → List Char → Option (List Char × List Char)
  | 0, _ => none
  | _ + 1, [] => none
  | fuel + 1, c :: rest =>
    let continueWith (cs : List Char) (rest : List Char) : Option (List Char × List Char) := do
      let (more, rest) ← multiline? quote escapes fuel rest
      return (cs ++ more, rest)
    if c = quote then
      let run := ((c :: rest).takeWhile (· = quote)).length
      if run < 3 then continueWith (List.replicate run quote) ((c :: rest).drop run)
      else
        let inside := min (run - 3) 2
        some (List.replicate inside quote, (c :: rest).drop (inside + 3))
    else if escapes ∧ c = '\\' then
      match continuation? rest with
      | some rest => continueWith [] rest
      | none => do
        let (d, rest) ← escape? rest
        continueWith [d] rest
    else if isShown c then continueWith [c] rest
    else
      match newline? (c :: rest) with
      | some rest => continueWith ['\n'] rest
      | none => none

def dropNewline (s : List Char) : List Char := (newline? s).getD s

def text? : List Char → Option (List Char × List Char)
  | '"' :: '"' :: '"' :: rest => multiline? '"' true (rest.length + 1) (dropNewline rest)
  | '"' :: rest => basic? (rest.length + 1) rest
  | '\'' :: '\'' :: '\'' :: rest => multiline? '\'' false (rest.length + 1) (dropNewline rest)
  | '\'' :: rest => literal? rest
  | _ => none

/-! ### Keys -/

def isBareKey (c : Char) : Bool := c.isAlphanum || c = '_' || c = '-'

/-- Reads one part of a key: quoted on one line, or bare. -/
def simpleKey? (s : List Char) : Option (List Char × List Char) :=
  match s with
  | '"' :: rest => basic? (rest.length + 1) rest
  | '\'' :: rest => literal? rest
  | s =>
    match s.takeWhile isBareKey with
    | [] => none
    | cs => some (cs, s.dropWhile isBareKey)

/-- Reads the parts of a key, with blanks around each.  The number bounds the parts. -/
def keyParts? : Nat → List Char → Option (List String × List Char)
  | 0, _ => none
  | fuel + 1, s => do
    let (part, s) ← simpleKey? (skipBlanks s)
    match skipBlanks s with
    | '.' :: rest =>
      let (parts, rest) ← keyParts? fuel rest
      return (String.ofList part :: parts, rest)
    | rest => return ([String.ofList part], rest)

/-- How deep keys and values may nest. -/
def nestingLimit : Nat := 79

/-- Reads a key: the parts in front, and the last one. -/
def dottedKey? (s : List Char) : Option ((List String × String) × List Char) := do
  let (parts, rest) ← keyParts? nestingLimit s
  let last ← parts.getLast?
  return ((parts.dropLast, last), rest)

end GraphDelta.Toml
