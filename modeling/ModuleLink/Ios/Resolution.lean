import ModuleLink.Ios.Layout
import ModuleLink.Overrides
import ModuleLink.Xcode.ProjectFile

/-!
The iOS side of an app or a library, from its folder and its settings.
-/

namespace ModuleLink
namespace Ios

open Xcode

/-! ## Settings -/

/-- The file name of a library of the system: a bare name is a framework. -/
def libraryFile (name : String) : String :=
  if (Path.ofString name).suffix.isEmpty then name ++ ".framework" else name

/-- The names in a setting.  A text counts as its characters and a table as its keys. -/
def namesIn : Setting → Except Fault (List String)
  | .text s => .ok (s.toList.map String.singleton)
  | .table entries => .ok (entries.map (·.1))
  | .list items => items.mapM fun item =>
    match item with
    | .text s => .ok s
    | _ => .error .settingKind
  | _ => .error .settingKind

def systemLibrariesIn (settings : Table) : Except Fault (List String) :=
  match settings.get? "sharedLibraries" with
  | some v => (namesIn v).map fun names => names.map libraryFile
  | none => .ok []

/-- The group for linked projects unless another one is set. -/
def standardLibraryFolder : String := "Libraries"

def libraryFolderIn (settings : Table) : Setting :=
  (settings.get? "libraryFolder").getD (.text standardLibraryFolder)

/-- The project that the settings name, or the one that is found. -/
def project? (t : Tree) (folder : Path) (settings : Table) : Except Fault (Option Path) := do
  match ← Overrides.path? settings "project" folder with
  | some project => return some project
  | none => return findProject t folder

/-- The podspec that the settings name, or the one that is found. -/
def podspec? (t : Tree) (folder : Path) (settings : Table) : Except Fault (Option Path) := do
  match ← Overrides.path? settings "podspecPath" folder with
  | some podspec => return some podspec
  | none => findPodspec t folder

/-! ## Both ends -/

/-- The Xcode project of the app in a folder, if it has one.  Its file has to be in order. -/
def app? (t : Tree) (folder : Path) (settings : Table) : Except Fault (Option App) := do
  match ← project? t folder settings with
  | none => return none
  | some project =>
    let podfile := project.parent.child "Podfile"
    let hasPodfile ← t.isThere podfile
    let graph ← ProjectFile.load t (projectFile project)
    let _ ← graph.targets
    return some {
      folder := folder
      project := project
      libraryFolder := libraryFolderIn settings
      systemLibraries := ← systemLibrariesIn settings
      podfile? := if hasPodfile then some podfile else none }

/-- The iOS library in a folder, if there is one. -/
def library? (t : Tree) (folder : Path) (settings : Table) : Except Fault (Option Library) := do
  let project ← project? t folder settings
  let podspec ← podspec? t folder settings
  match Sources.of? project podspec with
  | none => return none
  | some sources =>
    return some {
      folder := folder
      sources := sources
      libraryFolder := libraryFolderIn settings
      systemLibraries := ← systemLibrariesIn settings }

end Ios
end ModuleLink
