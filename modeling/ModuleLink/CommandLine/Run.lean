import ModuleLink.CommandLine.Request
import ModuleLink.Linking.Session

/-!
Carrying out a command line on a workspace.
-/

namespace ModuleLink
namespace CommandLine

open Linking Workspace Notice

/-- How often each status is reported, by the names of the statuses. -/
def counts (results : List Result) : List (String × Nat) :=
  let names := results.map fun r => r.status.name
  (names.eraseDups.mergeSort fun a b => decide (a ≤ b)).map fun name => (name, names.count name)

def summary (results : List Result) : String :=
  "Done: " ++ String.intercalate ", " ((counts results).map fun (name, n) => toString n ++ " " ++ name)

/-- The platforms of a request: all of them unless some are named. -/
def platformsOf (r : Request) : Except Fault (List Platform) :=
  match r.platforms with
  | none => .ok (Platform.select none)
  | some text =>
    if text.isEmpty then .ok (Platform.select none)
    else
      (Platform.parse ((Text.splitBy (· == ',') text.toList).map String.ofList)).map fun ps =>
        Platform.select (some ps)

/-- Runs a request on the app at its root. -/
def carryOut (java : Java.Outline.Parser) (r : Request) : Step (List Result) := do
  let platforms ← Attempt.ofExcept (platformsOf r)
  let root := Path.ofString r.root
  match r.command with
  | .unlink => unlinkRun root r.names platforms java
  | .link =>
    let ask := if r.asksUser then askTerminal else askNobody
    Attempt.zoom (fun w => (([] : Answers), w)) (fun s _ => s.2) (linkRun root r.names platforms ask java)

/-- Carries out a command line, and gives the exit code.  A project that cannot be used is reported; other faults are the
caller's. -/
def run (arguments : List String) (java : Java.Outline.Parser := Java.Outline.ofSource) : Step Nat := do
  match parse arguments with
  | .help => return 0
  | .misuse => return 2
  | .run r =>
    match ← (carryOut java r).outcome with
    | .ok results =>
      if !results.isEmpty then tell .info (summary results)
      return 0
    | .error f =>
      if f.stopsProject then
        tell .error f.message
        return 1
      else throw f

end CommandLine
end ModuleLink
