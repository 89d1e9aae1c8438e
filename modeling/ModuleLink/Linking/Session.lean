import ModuleLink.Library.Manifest
import ModuleLink.Linking.Resolution
import ModuleLink.Linking.Run

/-!
Whole runs on an app: from the names of libraries to the results.
-/

namespace ModuleLink
namespace Linking

open Workspace Notice

/-- The app and the libraries that a run works on. -/
structure Cast where
  host : Host Workspace AppSide LibrarySide
  dependencies : List (Dependency LibrarySide)
  /-- Results for the libraries that could not be resolved. -/
  failed : List Result

/-- Resolves the app at a root and the libraries of some names. -/
def prepare (java : Java.Outline.Parser) (root : Path) (names : List String) (platforms : List Platform) :
    Step Cast := do
  let app ← survey fun t => appSides t root platforms
  let resolved ← survey fun t => resolveAll t root platforms names java
  let failed ← resolved.failed.mapM fun (name, f) => do
    tell .error f.message
    return { dependency := name, platform := none, status := .failed, detail := f.message }
  return {
    host := { platforms := platforms, app? := app, capability? := fun p => return some (capability p) }
    dependencies := resolved.dependencies
    failed := failed }

/-- The names to work on: those given, or all that the app depends on. -/
def namesOr (discovered names : List String) : List String := if names.isEmpty then discovered else names

/-- The root as a normal path, once the manifest was read. -/
def settle (root : Path) : Step (Path × List String) := do
  let t := (← get).tree
  return (Path.normal t.here root, Library.discover t root)

/-- Links libraries into the app at a root. -/
def linkRun (root : Path) (names : List String) (platforms : List Platform) (ask : Param → Step String)
    (java : Java.Outline.Parser := Java.Outline.ofSource) : Attempt (Answers × Workspace) (List Result) := do
  let (root, discovered) ← besideAnswers (settle root)
  let cast ← besideAnswers (prepare java root (namesOr discovered names) platforms)
  let results ← link cast.host ask cast.dependencies
  return cast.failed ++ results

/-- Unlinks libraries from the app at a root.  What the other libraries of the app need stays. -/
def unlinkRun (root : Path) (names : List String) (platforms : List Platform)
    (java : Java.Outline.Parser := Java.Outline.ofSource) : Step (List Result) := do
  let (root, discovered) ← settle root
  let names := namesOr discovered names
  let cast ← prepare java root names platforms
  let others ← survey fun t => resolveAll t root platforms (discovered.filter fun n => !names.contains n) java
  let results ← unlink cast.host others.dependencies cast.dependencies
  return cast.failed ++ results

end Linking
end ModuleLink
