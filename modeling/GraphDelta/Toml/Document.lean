/-
**TOML documents.**

A document is read line by line: each line is blank, opens a table or an element of a list of tables,
or gives a key its value in the table opened last.

Main definitions:

* `Toml.value?` — reads a value;
* `Toml.parse?` — the table of a document.
-/
import GraphDelta.Toml.Basic
import GraphDelta.Toml.Scalar
import GraphDelta.Toml.Text

set_option autoImplicit false

namespace GraphDelta.Toml

/-! ### Values -/

/-- Drops blanks, comments and the ends of lines, starting inside or outside of a comment; a comment
must end with its line. -/
def skipSpaceFrom? (comment : Bool) : List Char → Option (List Char)
  | [] => if comment then none else some []
  | '\n' :: rest => skipSpaceFrom? false rest
  | '\r' :: '\n' :: rest => skipSpaceFrom? false rest
  | c :: rest =>
    if comment then if isShown c then skipSpaceFrom? true rest else none
    else if c = ' ' ∨ c = '\t' then skipSpaceFrom? false rest
    else if c = '#' then skipSpaceFrom? true rest
    else if c = '\r' then none
    else some (c :: rest)

def skipSpace? (s : List Char) : Option (List Char) := skipSpaceFrom? false s

mutual

/-- Reads a value.  The first number bounds the values read, the second their nesting. -/
def value? : Nat → Nat → List Char → Option (Toml × List Char)
  | 0, _, _ => none
  | fuel + 1, nesting, s =>
    match s with
    | '[' :: rest =>
      match nesting with
      | 0 => none
      | nesting + 1 => (items? fuel nesting rest).map fun (xs, rest) => (.list xs, rest)
    | '{' :: rest =>
      match nesting with
      | 0 => none
      | nesting + 1 =>
        match skipBlanks rest with
        | '}' :: rest => some (.table [], rest)
        | _ => (members? fuel nesting [] rest).map fun (ms, rest) =>
            (.table (Item.closeMembers ms), rest)
    | c :: _ =>
      if c = '"' ∨ c = '\'' then (text? s).map fun (cs, rest) => (.text (String.ofList cs), rest)
      else (scalar? s).map fun rest => (.scalar, rest)
    | [] => none

/-- Reads the items of a list and its closing bracket; a comma may stand after the last item. -/
def items? : Nat → Nat → List Char → Option (List Toml × List Char)
  | 0, _, _ => none
  | fuel + 1, nesting, s => do
    match ← skipSpace? s with
    | ']' :: rest => return ([], rest)
    | s =>
      let (x, s) ← value? fuel nesting s
      match ← skipSpace? s with
      | ',' :: rest =>
        let (xs, rest) ← items? fuel nesting rest
        return (x :: xs, rest)
      | ']' :: rest => return ([x], rest)
      | _ => none

/-- Reads the members of a table on one line and its closing brace, after the given ones. -/
def members? : Nat → Nat → Members → List Char → Option (Members × List Char)
  | 0, _, _, _ => none
  | fuel + 1, nesting, ms, s => do
    let ((path, key), s) ← dottedKey? s
    let s ← expect? '=' s
    let (x, s) ← value? fuel nesting (skipBlanks s)
    let ms ← ms.put? path key x
    match skipBlanks s with
    | ',' :: rest => members? fuel nesting ms rest
    | '}' :: rest => return (ms, rest)
    | _ => none

end

/-! ### Lines -/

/-- What has been read so far, and the table opened last. -/
structure Progress where
  root : Members
  /-- The path of keys to the table opened last. -/
  current : List String

/-- Drops what may follow on a line, and the end of the line. -/
def endLine? (s : List Char) : Option (List Char) :=
  match skipComment (skipBlanks s) with
  | [] => some []
  | rest => newline? rest

/-- Reads the header of an element of a list of tables, after its two brackets. -/
def elementHeader? (p : Progress) (s : List Char) : Option (Progress × List Char) := do
  let ((path, key), s) ← dottedKey? s
  let s ← expect? ']' (← expect? ']' s)
  return (⟨← p.root.openElement? path key, path ++ [key]⟩, ← endLine? s)

def tableHeader? (p : Progress) (s : List Char) : Option (Progress × List Char) := do
  let ((path, key), s) ← dottedKey? s
  let s ← expect? ']' s
  return (⟨← p.root.openTable? path key, path ++ [key]⟩, ← endLine? s)

def assignment? (p : Progress) (s : List Char) : Option (Progress × List Char) := do
  let ((path, key), s) ← dottedKey? s
  let s ← expect? '=' s
  let (x, s) ← value? (s.length + 1) nestingLimit (skipBlanks s)
  let root ← p.root.reach? .implied (fun _ ms => ms.put? path key x) p.current .header
  return ({ p with root }, ← endLine? s)

/-- Reads the lines of a document.  The number bounds them. -/
def lines? : Nat → Progress → List Char → Option Members
  | 0, _, _ => none
  | fuel + 1, p, s =>
    match skipBlanks s with
    | [] => some p.root
    | '#' :: rest => do lines? fuel p (← endLine? ('#' :: rest))
    | '\n' :: rest => lines? fuel p rest
    | '\r' :: rest => do lines? fuel p (← newline? ('\r' :: rest))
    | '[' :: '[' :: rest => do
      let (p, rest) ← elementHeader? p rest
      lines? fuel p rest
    | '[' :: rest => do
      let (p, rest) ← tableHeader? p rest
      lines? fuel p rest
    | rest => do
      let (p, rest) ← assignment? p rest
      lines? fuel p rest

/-- Drops a mark of the byte order at the start of a document. -/
def skipByteOrderMark : List Char → List Char
  | '\ufeff' :: rest => rest
  | s => s

def parse? (text : String) : Option (List (String × Toml)) :=
  let s := skipByteOrderMark text.toList
  (lines? (s.length + 1) ⟨[], []⟩ s).map Item.closeMembers

end GraphDelta.Toml
