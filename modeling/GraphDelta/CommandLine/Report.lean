/-
**Answers to requests.**

A report is what a request prints, and what is wrong, if anything: a chain of causes, the outermost
first.  A request may print and fail all the same, as a replay does that does not lead to the new
snapshot.

Main definitions:

* `CommandLine.Report` — an answer;
* `Fault.causes` — the causes of a fault;
* `Report.ofDiff`, `Report.ofOutline`, `Report.ofTrial`, `Report.ofCalls` — the answers to requests
  about a comparison;
* `Snapshot.arranged` — a snapshot with parents in front of their children.
-/
import GraphDelta.CommandLine.Lines
import GraphDelta.CommandLine.Request
import GraphDelta.Records
import GraphDelta.Settings
import GraphDelta.Sink.Capture
import GraphDelta.Sink.Transcript
import GraphDelta.Sink.Workspace

set_option autoImplicit false

namespace GraphDelta

/-- What is wrong: a fault, and behind it the reason of a sink that refused a call. -/
def Fault.causes (e : Fault) : List String :=
  e.message :: match e with
    | .refused reason => [reason.message]
    | _ => []

namespace CommandLine

/-- The answer to a request. -/
structure Report where
  output : String
  warnings : String
  /-- What is wrong, the outermost cause first. -/
  causes : List String
deriving DecidableEq

namespace Report

/-- The exit status: zero if nothing is wrong. -/
def status (r : Report) : Nat := if r.causes.isEmpty then 0 else 1

def ofOutput (text : String) : Report := ⟨text, "", []⟩

def ofCauses (causes : List String) : Report := ⟨"", "", causes⟩

def lines (texts : List String) : String := String.join (texts.map (· ++ "\n"))

/-- The sign in front of good news. -/
def tick (styled : Bool) : String := (Style.boldColoured .green).paint styled "✓"

/-- The sign in front of bad news. -/
def cross (styled : Bool) : String := (Style.boldColoured .red).paint styled "✗"

/-! ### Differences -/

/-- Leaves out an object, if that is wished; there is a warning if there is no such object. -/
def omitted (styled : Bool) (omission : Option Omission) (c : Comparison) :
    Except Fault (String × Comparison) :=
  match omission with
  | none => .ok ("", c)
  | some o => do
    let (found, c) ← c.omitRoot o.place o.newRoot
    let warning := (Style.boldColoured .yellow).paint styled "warning:" ++ " no added root under " ++
      o.place.text
    return (if found then "" else lines [warning], c)

def diffText (styled : Bool) (format : Format) (c : Comparison) : Except Fault String := do
  let c ← c.sort
  match format with
  | .json => return lines [c.delta.toJson.pretty]
  | .text =>
    if c.delta.isEmpty then return lines [tick styled ++ " snapshots are identical"]
    else return lines (c.delta.lines styled (← c.order) ++ ["", c.delta.summary styled])

def ofDiff (styled : Bool) (format : Format) (omission : Option Omission) (c : Comparison) :
    Report :=
  match omitted styled omission c with
  | .error e => ofCauses e.causes
  | .ok (warnings, c) =>
    match diffText styled format c with
    | .ok text => { ofOutput text with warnings }
    | .error e => { ofCauses e.causes with warnings }

/-! ### Outlines -/

def ofOutline (styled : Bool) (format : Format) (root : Ident) (interest : Interest)
    (c : Comparison) : Report :=
  match c.outline root interest.accepts, format with
  | .error e, _ => ofCauses e.causes
  | .ok entries, .json => ofOutput (lines [(Json.array (entries.map Outline.Entry.toJson)).pretty])
  | .ok [], .text => ofOutput (lines ["No changes below the root."])
  | .ok entries, .text => ofOutput (lines (entries.map fun e => e.paragraph styled))

/-! ### Replays -/

def trialText (styled : Bool) (format : Format) (tally : Replay.Tally) (converged : Bool) : String :=
  match format with
  | .json => lines [(Json.object [("converged", .bool converged), ("stats", tally.toJson)]).compact]
  | .text => lines [
      "Replayed " ++ toString tally.removed ++ " removals, " ++ toString tally.added ++
        " additions, " ++ toString tally.edited ++ " property changes",
      if converged then tick styled ++ " workspace matches the new snapshot"
      else cross styled ++ " workspace differs from the new snapshot"]

/-- The answer to a request for a trial replay: the workspace that holds the old snapshot should come
to hold the new one, which is read from the given path. -/
def ofTrial (styled : Bool) (format : Format) (mode : Replay.Mode) (path : String)
    (old new : Snapshot) (c : Comparison) : Report :=
  match c.replay mode Workspace.sink (.ofSnapshot old) with
  | (.error e, _) => ofCauses e.causes
  | (.ok tally, w) =>
    let converged := w.snapshot == (Workspace.ofSnapshot new).snapshot
    { ofOutput (trialText styled format tally converged) with
      causes := if converged then [] else ["replayed workspace does not match " ++ path] }

def ofCalls (styled : Bool) (format : Format) (mode : Replay.Mode) (c : Comparison) : Report :=
  match c.replay mode Transcript.sink [], format with
  | (.error e, _), _ => ofCauses e.causes
  | (.ok _, calls), .json => ofOutput (lines [(Json.array (calls.map Call.toJson)).pretty])
  | (.ok _, calls), .text => ofOutput (lines (calls.map (Call.styledLine styled)))

end Report

end CommandLine

/-! ### Snapshots -/

/-- The snapshot with one record an object or a property, and parents in front of their children. -/
def Snapshot.arranged (s : Snapshot) : Except Refusal Snapshot :=
  match (Workspace.ofSnapshot s).exportTo Capture.sink ∅ with
  | (.ok (), t) => .ok t
  | (.error e, _) => .error e

end GraphDelta
