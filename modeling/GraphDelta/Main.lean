/-
**The command line.**

Reads the words of the command line, runs the request on the files of the machine, and prints the
answer.  Output is styled where it goes to a terminal, unless the environment asks for something else.

Main definitions:

* `CommandLine.machine` — the files of the machine;
* `CommandLine.wantsStyle` — whether output is styled.
-/
import GraphDelta.CommandLine.Arguments
import GraphDelta.CommandLine.Run

set_option autoImplicit false

namespace GraphDelta.CommandLine

/-- The trouble that the machine reports. -/
def Trouble.ofError : IO.Error → Trouble
  | .alreadyExists _ number reason | .otherError number reason | .resourceBusy number reason
  | .resourceVanished number reason | .unsupportedOperation number reason
  | .hardwareFault number reason | .unsatisfiedConstraints number reason
  | .illegalOperation number reason | .protocolError number reason | .timeExpired number reason
  | .interrupted _ number reason | .noFileOrDirectory _ number reason
  | .invalidArgument _ number reason | .permissionDenied _ number reason
  | .resourceExhausted _ number reason | .inappropriateType _ number reason
  | .noSuchThing _ number reason =>
    -- some calls of the machine number their errors from zero downwards, in 32 bits
    let number := if number < 0x80000000 then number.toNat else (0 - number).toNat
    .system reason.capitalize number
  | .unexpectedEof | .userError _ => .notText

/-- The files of the machine. -/
def machine : Files IO where
  read path := do
    match ← (IO.FS.readFile path).toBaseIO with
    | .ok text => return .ok text
    | .error e => return .error (.ofError e)
  write path text := do
    match ← (IO.FS.writeFile path text).toBaseIO with
    | .ok () => return .ok ()
    | .error e => return .error (.ofError e)

/-- Whether output is styled, by three settings of the environment and the kind of the output: a
forced style wins over a refused one, and without either only a terminal has styles. -/
def wantsStyle (forced refused allowed : Option String) (terminal : Bool) : Bool :=
  if forced.any (· != "0") then true
  else if refused.isSome then false
  else terminal && allowed.all (· != "0")

def Report.complaint : List String → String
  | [] => ""
  | cause :: causes => Report.lines <|
      ("Error: " ++ cause) ::
        if causes.isEmpty then [] else "" :: "Caused by:" :: causes.map ("    " ++ ·)

def usage : String := Report.lines [
  "Usage: objdiff [-v] [--format text|json] COMMAND",
  "",
  "Commands:",
  "  diff [-c FILE] [--omit-root ID [--new-root ID]] OLD NEW",
  "  tree [-c FILE] [-r ID] OLD NEW",
  "  replay [-c FILE] [--conditional] [--show-ops] OLD NEW",
  "  normalize [-o FILE] FILE",
  "  help [COMMAND]"]

end GraphDelta.CommandLine

open GraphDelta.CommandLine in
/-- Runs a command line and exits with its status. -/
def main (words : List String) : IO UInt32 := do
  let out ← IO.getStdout
  let aside ← IO.getStderr
  match Request.ofWords words with
  | .error .informs =>
    out.putStr usage
    return 0
  | .error .misuse =>
    aside.putStr usage
    return 2
  | .ok (request, format) =>
    let styled := wantsStyle (← IO.getEnv "CLICOLOR_FORCE") (← IO.getEnv "NO_COLOR")
      (← IO.getEnv "CLICOLOR") (← out.isTty)
    let report ← request.run machine styled format
    out.putStr report.output
    aside.putStr report.warnings
    aside.putStr (Report.complaint report.causes)
    return report.status.toUInt32
