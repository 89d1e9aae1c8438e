import ModuleLink.Path
import ModuleLink.Setting.Basic

/-!
Where the iOS side of an app and of a library is.
-/

namespace ModuleLink
namespace Ios

/-- The Xcode project of an app, with its Podfile if it has one. -/
structure App where
  folder : Path
  project : Path
  /-- The name of the group that linked projects go into. -/
  libraryFolder : Setting
  systemLibraries : List String
  podfile? : Option Path

/-- What a library is built from: an Xcode project, a podspec, or both. -/
inductive Sources where
  | project (project : Path)
  | pod (podspec : Path)
  | both (project podspec : Path)

namespace Sources

def project? : Sources → Option Path
  | project p | both p _ => some p
  | pod _ => none

def podspec? : Sources → Option Path
  | pod s | both _ s => some s
  | project _ => none

/-- The sources that are there, if any are. -/
def of? (project? podspec? : Option Path) : Option Sources :=
  match project?, podspec? with
  | some p, some s => some (both p s)
  | some p, none => some (project p)
  | none, some s => some (pod s)
  | none, none => none

end Sources

/-- The iOS library that a package ships. -/
structure Library where
  folder : Path
  sources : Sources
  libraryFolder : Setting
  /-- File names of the libraries of the system that it needs. -/
  systemLibraries : List String

/-- The folder beside a project, or the one that stands in for it. -/
def sourceDir (project? : Option Path) (folder : Path) : Path := (project?.map Path.parent).getD folder

/-- The file of a project that holds its objects. -/
def projectFile (project : Path) : Path := project.child "project.pbxproj"

/-- What the names of projects end in. -/
def projectEnding : String := ".xcodeproj"

/-- The name of the target that a project is named after. -/
def targetName? (projectName : String) : Option String :=
  if projectName.isEmpty then none
  else
    let cs := projectName.toList
    if Text.endsWith projectEnding.toList cs then some (String.ofList (cs.take (cs.length - projectEnding.length)))
    else some projectName

/-- The name of the pod that a podspec describes. -/
def podName (podspec : Path) : String := podspec.stem

namespace App

def sourceDir (a : App) : Path := a.project.parent

def projectFile (a : App) : Path := Ios.projectFile a.project

def target (a : App) : String := (targetName? a.project.name).getD ""

end App
end Ios
end ModuleLink
