/-
**Running requests.**

A request reads its files, in the order settings, old snapshot, new snapshot, and stops at the first
one that cannot be read.  An outline that has no root stops before the snapshots are read.

Main definitions:

* `CommandLine.readSnapshot`, `CommandLine.readSettings` — the content of a file;
* `CommandLine.Request.run` — **the answer to a request**.
-/
import GraphDelta.CommandLine.Files
import GraphDelta.CommandLine.Report

set_option autoImplicit false

namespace GraphDelta.CommandLine

variable {m : Type → Type} [Monad m]

/-! ### Reading -/

/-- The snapshot in a file. -/
def readSnapshot (files : Files m) (path : String) : ExceptT (List String) m Snapshot := do
  match ← files.read path with
  | .error e => throw ["reading snapshot " ++ path, e.message]
  | .ok text =>
    match Snapshot.read text with
    | .error e => throw ["parsing snapshot " ++ path, e.message]
    | .ok s => return s

/-- The settings in a file; without a file they are those of an empty document. -/
def readSettings (files : Files m) : Option String → ExceptT (List String) m Settings
  | none => return .default
  | some path => do
    match ← files.read path with
    | .error _ => throw ["configuration error"]
    | .ok text =>
      match Settings.read? text with
      | some s => return s
      | none => throw ["configuration error"]

/-- The snapshots of a comparison, and the comparison. -/
def readComparison (files : Files m) (sources : Sources) :
    ExceptT (List String) m (Snapshot × Snapshot × Comparison) := do
  let old ← readSnapshot files sources.old
  let new ← readSnapshot files sources.new
  match Comparison.ofSnapshots old new with
  | .ok c => return (old, new, c)
  | .error e => throw e.causes

/-! ### Answering -/

namespace Request

/-- The answer to a request; an exception where its files cannot be used. -/
def answer (files : Files m) (styled : Bool) (format : Format) :
    Request → ExceptT (List String) m Report
  | .diff sources omission => do
    let (_, _, c) ← readComparison files sources
    return .ofDiff styled format omission c
  | .outline sources root => do
    let settings ← readSettings files sources.settings
    match root.or settings.root with
    | none => throw ["no display root: pass --root or set root_id in the config"]
    | some root =>
      let (_, _, c) ← readComparison files sources
      return .ofOutline styled format root settings.interest c
  | .replay sources conditional showCalls => do
    let settings ← readSettings files sources.settings
    let mode := if conditional then .conditional else settings.mode
    let (old, new, c) ← readComparison files sources
    if showCalls then return .ofCalls styled format mode c
    else return .ofTrial styled format mode sources.new old new c
  | .normalize file output => do
    match (← readSnapshot files file).arranged with
    | .error e => throw [e.message]
    | .ok s =>
      let text := Report.lines [s.write]
      match output with
      | none => return .ofOutput text
      | some path =>
        match ← files.write path text with
        | .ok () => return .ofOutput (Report.lines [Report.tick styled ++ " wrote " ++ path])
        | .error e => throw ["writing " ++ path, e.message]

def run (files : Files m) (styled : Bool) (format : Format) (request : Request) : m Report := do
  match ← (request.answer files styled format).run with
  | .ok report => return report
  | .error causes => return .ofCauses causes

end Request

end GraphDelta.CommandLine
