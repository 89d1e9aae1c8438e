import ModuleLink.Ios.Headers
import ModuleLink.Ios.Libraries
import ModuleLink.Ios.LibraryGroup
import ModuleLink.Ios.Podfile
import ModuleLink.Patch.Apply
import ModuleLink.Xcode.ProjectFile

/-!
Libraries in the iOS side of an app: by a line in the Podfile where both ends know pods, otherwise by edits of the
project file.
-/

namespace ModuleLink
namespace Ios

open Patch Xcode Editing Workspace

/-- The way a library gets into an app. -/
inductive Route where
  /-- A line in the Podfile for a podspec. -/
  | podLine (podfile podspec : Path)
  /-- Edits of the project file for an Xcode project. -/
  | projectEdits (project : Path)
  /-- The library has a podspec and no project, and the app has no Podfile. -/
  | byHand (podspec : Path)

def route (app : App) (library : Library) : Route :=
  match app.podfile?, library.sources with
  | some podfile, .pod podspec => .podLine podfile podspec
  | some podfile, .both _ podspec => .podLine podfile podspec
  | _, .project project => .projectEdits project
  | none, .both project _ => .projectEdits project
  | none, .pod podspec => .byHand podspec

def podInsertionFor (here : Path) (app : App) (library : Library) (podfile podspec : Path) : Insertion :=
  podInsertion here app.target (podName podspec) library.folder podfile

/-! ## Header search paths -/

/-- The build setting that lists the folders of headers. -/
def headerSetting : String := "HEADER_SEARCH_PATHS"

/-- Makes a change for the search path of the library's headers to every configuration of the applications.  A library
without headers changes none. -/
def changeHeaderSettings (headers : List Path) (path : Except Fault String)
    (change : Graph → (configuration name value : String) → Graph × Bool) : Editing Unit := do
  if !headers.isEmpty then
    let path ← Attempt.ofExcept path
    for configuration in ← ask Graph.headerConfigurations do
      modify fun g => (change g configuration.id headerSetting path).1

/-! ## The project file -/

/-- Links a library with an Xcode project, and tells what is left to do by hand.  Without a main group there is nothing
to link it into. -/
def linkProject (t : Tree) (name : String) (app : App) (library : Library) (project : Path) (built : Graph) :
    Editing (List String) := do
  match ← ensureGroup (groupName app.libraryFolder) with
  | none => return [app.project.name ++ " has no main group"]
  | some group =>
    listProject group name project.name (Path.relative t.here project app.sourceDir).toString
    let products ← Attempt.ofExcept (built.products staticLibraryType)
    let left ← addStaticLibraries name products
    addSystemLibraries library.systemLibraries
    let headers := findHeaders t library.folder
    changeHeaderSettings headers (headerSearchPath t.here app.sourceDir headers)
      fun g configuration setting path => g.addSetting configuration setting path Graph.inheritedValue
    return left

/-- Takes a library with an Xcode project out.  System libraries that are `needed` by others stay. -/
def unlinkProject (t : Tree) (name : String) (app : App) (library : Library) (project : Path) (built : Graph)
    (needed : List String) : Editing Unit := do
  unlistProject app.libraryFolder project.name
  for product in ← Attempt.ofExcept (built.products staticLibraryType) do
    removeStaticLibrary name product
  removeSystemLibraries (library.systemLibraries.filter fun l => !needed.contains l)
  let headers := findHeaders t library.folder
  changeHeaderSettings headers (headerSearchPath t.here app.sourceDir headers) Graph.removeSetting

/-- Runs edits on the project file of an app; they may look at the graph of the library's project. -/
def editProject {α : Type} (app : App) (project : Path) (edits : Tree → Graph → Editing α) : Step α := do
  let tree := (← get).tree
  let graph ← look fun t => ProjectFile.load t app.projectFile
  let built ← look fun t => ProjectFile.load t (projectFile project)
  let (a, graph) ← Attempt.ofExcept (ProjectFile.edited (edits tree built) graph)
  ProjectFile.save app.projectFile graph
  return a

/-! ## Registration -/

/-- The library is part of the app. -/
def isInstalled (app : App) (library : Library) : Step Bool := do
  match route app library with
  | .podLine podfile podspec => return hasPod (podName podspec) (← readText podfile).toList
  | .byHand _ => return false
  | .projectEdits project =>
    let graph ← look fun t => ProjectFile.load t app.projectFile
    let (listed, _) ← Attempt.ofExcept (ProjectFile.edited (listsProject app.libraryFolder project.name) graph)
    return listed

/-- Makes the library part of the app, and tells what is left to do by hand. -/
def register (name : String) (library : Library) (app : App) : Step (List String) := do
  match route app library with
  | .podLine podfile podspec =>
    let here := (← get).tree.here
    match ← ((podInsertionFor here app library podfile podspec).applyTo podfile).outcome with
    | .ok _ => return []
    | .error f =>
      match f.instruction? with
      | some instruction => return [instruction]
      | none => throw f
  | .byHand podspec =>
    return ["add pod '" ++ podName podspec ++ "' to a Podfile; " ++ app.project.name ++ " does not use CocoaPods"]
  | .projectEdits project => editProject app project fun t built => linkProject t name app library project built

/-- Takes the library out of the app.  What others need stays. -/
def unregister (name : String) (library : Library) (app : App) (others : List Library) : Step (List String) := do
  match route app library with
  | .podLine podfile podspec =>
    let here := (← get).tree.here
    let _ ← (podInsertionFor here app library podfile podspec).revertIn podfile
    return []
  | .byHand _ => return []
  | .projectEdits project =>
    editProject app project fun t built =>
      unlinkProject t name app library project built (others.flatMap Library.systemLibraries)
    return []

end Ios
end ModuleLink
