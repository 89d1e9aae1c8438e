import ModuleLink.Patch.Basic
import ModuleLink.Workspace

/-!
Patches on files.
-/

namespace ModuleLink
namespace Patch
namespace Insertion

open Workspace

/-- The file holds the text; a file that is not there holds nothing. -/
def isApplied (p : Insertion) (t : Tree) (path : Path) : Except Fault Bool :=
  if p.isEmpty then .ok true
  else
    match t.readText path with
    | .ok content => .ok (p.isIn content.toList)
    | .error (.inaccessible .missing _) => .ok false
    | .error f => .error f

/-- Makes the insertion and says whether the file changed. -/
def applyTo (p : Insertion) (path : Path) : Step Bool := do
  if p.isEmpty then return false
  let content ← readText path
  match ← Attempt.ofExcept (p.apply path.toString content.toList) with
  | none => return false
  | some changed =>
    writeText path (String.ofList changed)
    return true

/-- Takes the insertion out and says whether the file changed. -/
def revertIn (p : Insertion) (path : Path) : Step Bool := do
  if p.isEmpty then return false
  match (← get).tree.readText path with
  | .error (.inaccessible .missing _) => return false
  | .error f => throw f
  | .ok content =>
    match ← Attempt.ofExcept (p.revert content.toList) with
    | .absent => return false
    | .ambiguous =>
      Notice.tell .warning ("Patch '" ++ p.name ++ "' occurs several times in " ++ path.toString ++
        "; leaving it in place")
      return false
    | .removed changed =>
      writeText path (String.ofList changed)
      return true

end Insertion
end Patch
end ModuleLink
