/-
**The grammar of command lines.**

A command line names a command; options stand before and after the name, and the command's operands
among the later ones.  A long option is spelled `--name`, with its value behind `=` or as the next
word; short ones are spelled `-x`, several may share a word, and a value may follow in the same word,
with or without `=`.  A word that begins with a hyphen is never the value of an option before it,
except for the hyphen alone.  After the word `--` all words are operands.

An option is given at most once on each side of the command's name, and counts for both; where both
sides give it, the later one counts.  A value that is a word of its own is looked at when the next
option or operand comes or the words end, so an option in front of the command's name waits for the
command's own words to be read first.

Main definitions:

* `CommandLine.Flag`, `CommandLine.Verb` — the options and the commands;
* `CommandLine.Dismissal` — why there is nothing to do: help is asked for, or the words are wrong;
* `CommandLine.Scan` — what has been read of the words of one side;
* `CommandLine.Request.ofWords` — **the request of a command line**.
-/
import GraphDelta.CommandLine.Request

set_option autoImplicit false

namespace GraphDelta.CommandLine

/-! ### Options and commands -/

/-- An option. -/
inductive Flag where
  | verbose
  | format
  | help
  | version
  | settings
  | omitRoot
  | newRoot
  | root
  | conditional
  | showCalls
  | output
deriving DecidableEq

/-- What an option does with the words behind it. -/
inductive Flag.Kind where
  | switch
  /-- It asks for help or for the version, and nothing else is done. -/
  | inform
  | text
  | path
  | format
deriving DecidableEq

namespace Flag

/-- What an option does with the words behind it. -/
def kind : Flag → Kind
  | .verbose | .conditional | .showCalls => .switch
  | .help | .version => .inform
  | .omitRoot | .newRoot | .root => .text
  | .settings | .output => .path
  | .format => .format

def name : Flag → String
  | .verbose => "verbose"
  | .format => "format"
  | .help => "help"
  | .version => "version"
  | .settings => "config"
  | .omitRoot => "omit-root"
  | .newRoot => "new-root"
  | .root => "root"
  | .conditional => "conditional"
  | .showCalls => "show-ops"
  | .output => "output"

def letter? : Flag → Option Char
  | .verbose => some 'v'
  | .help => some 'h'
  | .version => some 'V'
  | .settings => some 'c'
  | .root => some 'r'
  | .output => some 'o'
  | .format | .omitRoot | .newRoot | .conditional | .showCalls => none

end Flag

namespace Flag.Kind

def takesValue : Kind → Bool
  | .switch | .inform => false
  | .text | .path | .format => true

/-- Whether the value will do. -/
def admits : Kind → String → Bool
  | .path, v => !v.isEmpty
  | .format, v => (Format.ofName? v).isSome
  | _, _ => true

end Flag.Kind

/-- A command. -/
inductive Verb where
  | diff
  | outline
  | replay
  | normalize
deriving DecidableEq

namespace Verb

def name : Verb → String
  | .diff => "diff"
  | .outline => "tree"
  | .replay => "replay"
  | .normalize => "normalize"

def ofName? (s : String) : Option Verb := [diff, outline, replay, normalize].find? (·.name == s)

/-- The options after the name of a command. -/
def flags (v : Verb) : List Flag :=
  [.verbose, .format, .help] ++
    match v with
    | .diff => [.settings, .omitRoot, .newRoot]
    | .outline => [.settings, .root]
    | .replay => [.settings, .conditional, .showCalls]
    | .normalize => [.output]

/-- The number of operands of a command. -/
def arity : Verb → Nat
  | .diff | .outline | .replay => 2
  | .normalize => 1

end Verb

/-- The options in front of the name of a command. -/
def leadingFlags : List Flag := [.verbose, .format, .help, .version]

/-- Why there is nothing to do. -/
inductive Dismissal where
  | informs
  | misuse
deriving DecidableEq

def Dismissal.status : Dismissal → Nat
  | .informs => 0
  | .misuse => 2

/-! ### One side of a command line -/

/-- What has been read of the words on one side of the command's name. -/
structure Scan where
  /-- The options, with their values; a switch has the empty one. -/
  options : List (Flag × String)
  operands : List String
  /-- The last option, if its value is to be a word of its own, with that word once it is read. -/
  awaiting : Option (Flag × Option String)

namespace Scan

def start : Scan := ⟨[], [], none⟩

def value? (s : Scan) (f : Flag) : Option String := s.options.lookup f

def has (s : Scan) (f : Flag) : Bool := (s.value? f).isSome

/-- Whether the next word is to be the value of an option, if it can be one. -/
def awaits (s : Scan) : Bool := s.awaiting matches some (_, none)

/-- Takes note of an option: its value must do, and it must be the first of its kind. -/
def give (f : Flag) (v : String) (s : Scan) : Except Dismissal Scan :=
  if f.kind = .inform then .error .informs
  else if s.has f || !f.kind.admits v then .error .misuse
  else .ok { s with options := s.options ++ [(f, v)] }

/-- Takes note of the option that awaits its value. -/
def settle (s : Scan) : Except Dismissal Scan :=
  match s.awaiting with
  | none => .ok s
  | some (_, none) => .error .misuse
  | some (f, some v) => give f v { s with awaiting := none }

/-- Takes note of an operand, if there is room for one more. -/
def operand (arity : Nat) (w : String) (s : Scan) : Except Dismissal Scan := do
  let s ← s.settle
  if s.operands.length < arity && !w.isEmpty then return { s with operands := s.operands ++ [w] }
  else throw .misuse

/-- Reads a long option, without its hyphens. -/
def long (flags : List Flag) (cs : List Char) (s : Scan) : Except Dismissal Scan :=
  let name := String.ofList (cs.takeWhile (· != '='))
  let value? : Option String := match cs.dropWhile (· != '=') with
    | [] => none
    | _ :: v => some (String.ofList v)
  match flags.find? (·.name == name), value? with
  | none, _ => .error .misuse
  | some f, value? => do
    let s ← s.settle
    match f.kind.takesValue, value? with
    | true, none => return { s with awaiting := some (f, none) }
    | true, some v => s.give f v
    | false, none => s.give f ""
    | false, some _ => throw .misuse

/-- Reads short options that share a word, without the hyphen. -/
def short (flags : List Flag) : List Char → Scan → Except Dismissal Scan
  | [], s => .ok s
  | c :: cs, s =>
    match flags.find? (·.letter? == some c) with
    | none => .error .misuse
    | some f => do
      let s ← s.settle
      if f.kind.takesValue then
        match cs with
        | [] => return { s with awaiting := some (f, none) }
        | '=' :: v | v => s.give f (String.ofList v)
      else short flags cs (← s.give f "")

/-- Reads words up to a stop word, which is not a value; the stop word and what follows are left. -/
def words (flags : List Flag) (arity : Nat) (stop : String → Bool) :
    List String → Scan → Except Dismissal (Scan × List String)
  | [], s => .ok (s, [])
  | w :: ws, s =>
    if !s.awaits && stop w then .ok (s, w :: ws)
    else
      match w.toList with
      | ['-', '-'] => do return (← ws.foldlM (fun s w => s.operand arity w) s, [])
      | '-' :: '-' :: cs => do words flags arity stop ws (← s.long flags cs)
      | '-' :: c :: cs => do words flags arity stop ws (← s.short flags (c :: cs))
      | _ =>
        match s.awaiting with
        | some (f, none) => words flags arity stop ws { s with awaiting := some (f, some w) }
        | _ => do words flags arity stop ws (← s.operand arity w)

end Scan

/-! ### Requests -/

def Sources.ofScan? (s : Scan) : Option Sources :=
  match s.operands with
  | [old, new] => some ⟨old, new, s.value? .settings⟩
  | _ => none

/-- The wish to leave out an object, if there is one; a new root is part of such a wish. -/
def Omission.ofScan? (s : Scan) : Option (Option Omission) :=
  match s.value? .omitRoot, s.value? .newRoot with
  | some place, newRoot => some (some ⟨⟨place⟩, newRoot.map Ident.mk⟩)
  | none, none => some none
  | none, some _ => none

/-- The request of the words after the name of a command. -/
def Request.ofScan? (s : Scan) : Verb → Option Request
  | .diff => do return .diff (← Sources.ofScan? s) (← Omission.ofScan? s)
  | .outline => do return .outline (← Sources.ofScan? s) ((s.value? .root).map Ident.mk)
  | .replay => do return .replay (← Sources.ofScan? s) (s.has .conditional) (s.has .showCalls)
  | .normalize =>
    match s.operands with
    | [file] => some (.normalize file (s.value? .output))
    | _ => none

/-- The command for help: alone, or with the name of one command. -/
def helpWord : String := "help"

/-- What the words after the command for help ask for. -/
def helpFor : List String → Dismissal
  | [] => .informs
  | [w] => if w == helpWord || (Verb.ofName? w).isSome then .informs else .misuse
  | _ => .misuse

/-- The request of a command line, and the format of the answer. -/
def Request.ofWords (ws : List String) : Except Dismissal (Request × Format) := do
  let (outer, rest) ← Scan.start.words leadingFlags 0
    (fun w => w == helpWord || (Verb.ofName? w).isSome) ws
  match rest with
  | [] => throw .misuse
  | w :: ws =>
    match Verb.ofName? w with
    | none => throw (helpFor ws)
    | some verb =>
      let (inner, _) ← Scan.start.words verb.flags verb.arity (fun _ => false) ws
      let inner ← inner.settle
      match ofScan? inner verb with
      | none => throw .misuse
      | some request =>
        let outer ← outer.settle
        let format := (inner.value? .format).or (outer.value? .format)
        return (request, (format.bind Format.ofName?).getD .text)

end GraphDelta.CommandLine
