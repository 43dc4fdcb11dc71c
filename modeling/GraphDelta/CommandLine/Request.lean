/-
**Requests.**

What a command line can ask for: the difference of two snapshots, an outline of it, a trial replay, or
a snapshot file written anew.

Main definitions:

* `CommandLine.Format` — how the answer is written;
* `CommandLine.Sources` — the files that a comparison is made from;
* `CommandLine.Request` — what is asked for.
-/
import GraphDelta.Ident

set_option autoImplicit false

namespace GraphDelta.CommandLine

/-- How the answer to a request is written. -/
inductive Format where
  | text
  | json
deriving DecidableEq, Inhabited

namespace Format

def name : Format → String
  | .text => "text"
  | .json => "json"

def ofName? (s : String) : Option Format := [text, json].find? (·.name == s)

end Format

/-- The files that a comparison is made from. -/
structure Sources where
  old : String
  new : String
  settings : Option String
deriving DecidableEq

/-- A wish to leave out the top object of what is added. -/
structure Omission where
  place : Ident
  /-- What its children are to hang under instead. -/
  newRoot : Option Ident
deriving DecidableEq

/-- What is asked for. -/
inductive Request where
  | diff (sources : Sources) (omission : Option Omission)
  | outline (sources : Sources) (root : Option Ident)
  /-- A replay of a difference onto the old snapshot, to see whether the new one comes out; or else
  the calls of the replay. -/
  | replay (sources : Sources) (conditional showCalls : Bool)
  | normalize (file : String) (output : Option String)
deriving DecidableEq

end GraphDelta.CommandLine
