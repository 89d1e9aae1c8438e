import ModuleLink.Android.Blocks
import ModuleLink.Patch.Apply

/-!
Libraries in the Android side of an app: five insertions into its build files and sources.
-/

namespace ModuleLink
namespace Android

open Patch Workspace

/-- The build file depends on the library.  Without a build file nothing does. -/
def isInstalled (t : Tree) (app : App) (name : String) : Except Fault Bool :=
  match t.readText app.buildGradle with
  | .ok content => .ok (hasDependency name content.toList)
  | .error (.inaccessible .missing _) => .ok false
  | .error f => .error f

/-- The insertions for a library with the params that its string resources hold now. -/
def presentInsertions (t : Tree) (name : String) (library : Library) (app : App) :
    Except Fault (List (Path × Insertion)) := do
  let params ← moduleParams t app.strings (camelCase name)
  insertions t.here name library params app

/-- Something of the library is in the app, be it only a part. -/
def hasRegistration (t : Tree) (app : App) (name : String) (library : Library) : Except Fault Bool := do
  if ← isInstalled t app name then return true
  else
    (← presentInsertions t name library app).anyM fun (path, p) =>
      if p.isEmpty then return false else p.isApplied t path

/-- Makes one insertion, or tells how it is made by hand. -/
def insert (path : Path) (p : Insertion) : Step (List String) := do
  if p.isEmpty then return []
  else if !(← look fun t => t.isFile path) then
    return ["add the following to " ++ path.toString ++ " (file not found):\n" ++
      String.ofList (Text.trim p.chars)]
  else
    match ← (p.applyTo path).outcome with
    | .ok _ => return []
    | .error f =>
      match f.instruction? with
      | some instruction => return [instruction]
      | none => throw f

/-- Makes the library part of the app, and tells what is left to do by hand. -/
def register (name : String) (library : Library) (params : Answers) (app : App) : Step (List String) := do
  let ps ← look fun t => insertions t.here name library params app
  let left ← ps.mapM fun (path, p) => insert path p
  return left.flatten

/-- Takes the library out of the app, last insertion first. -/
def unregister (name : String) (library : Library) (app : App) : Step (List String) := do
  let ps ← look fun t => presentInsertions t name library app
  for (path, p) in ps.reverse do
    let _ ← p.revertIn path
  return []

end Android
end ModuleLink
