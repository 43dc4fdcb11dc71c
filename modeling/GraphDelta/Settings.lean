/-
**Settings.**

A settings document is a TOML table: the object below which outlines are made, the way in which edits
are replayed, and the properties worth showing.  Each may be missing, and other keys are passed over.

Main definitions:

* `Settings` — the settings;
* `Settings.read?` — the settings of a document.
-/
import GraphDelta.Interest
import GraphDelta.Replay
import GraphDelta.Toml.Document

set_option autoImplicit false

namespace GraphDelta

/-- How comparisons are shown and replayed. -/
structure Settings where
  /-- The object below which outlines are made, unless another one is asked for. -/
  root : Option Ident
  mode : Replay.Mode
  interest : Interest

/-- The settings of an empty document. -/
def Settings.default : Settings := ⟨none, .plain, .all⟩

namespace Replay.Mode

def name : Mode → String
  | .plain => "new_values_only"
  | .conditional => "conditional"

def ofName? (s : String) : Option Mode := [plain, conditional].find? (·.name == s)

/-- A mode is written as its name, or as a table of that one key with nothing in it. -/
def read? : Toml → Option Mode
  | .text s => ofName? s
  | .table [(s, .table [])] => ofName? s
  | .table [(s, .list [])] => ofName? s
  | _ => none

end Replay.Mode

namespace Settings

def readText? : Toml → Option String
  | .text s => some s
  | _ => none

def readTexts? : Toml → Option (List String)
  | .list xs => xs.mapM readText?
  | _ => none

/-- A table of lists of texts. -/
def readInterest? : Toml → Option Interest
  | .table ms => do
    let entries ← ms.mapM fun (type, names) => do return (type, ← readTexts? names)
    return .ofList entries
  | _ => none

/-- What a table holds under a key, or else the given default. -/
def readKey? {α : Type} (ms : List (String × Toml)) (key : String) (default : α)
    (f : Toml → Option α) : Option α :=
  match ms.lookup key with
  | some x => f x
  | none => some default

/-- The settings of a document. -/
def read? (text : String) : Option Settings := do
  let ms ← Toml.parse? text
  return {
    root := ← readKey? ms "root_id" none fun x => (readText? x).map fun s => some ⟨s⟩
    mode := ← readKey? ms "replay_mode" .plain Replay.Mode.read?
    interest := ← readKey? ms "interesting_properties" .all readInterest? }

end Settings

end GraphDelta
