import ModuleLink.Ios.Config
import ModuleLink.Xcode.Editing

/-!
The group of an app's project that the projects of linked libraries go into.
-/

namespace ModuleLink
namespace Ios

open Plist Xcode Editing

/-! ## The name of the group -/

mutual

/-- A setting as plain data for a property list. -/
def draftOf : Setting → Draft
  | .text s => .text s
  | .list items => .list (draftItems items)
  | .table entries => .dict (draftEntries entries)
  | other => .other other.display

def draftItems : List Setting → List Draft
  | [] => []
  | v :: rest => draftOf v :: draftItems rest

def draftEntries : List (String × Setting) → List (String × Draft)
  | [] => []
  | (key, v) :: rest => (key, draftOf v) :: draftEntries rest

end

/-- The label of a group is the name that is set.  No name set is the name of groups without a label. -/
def bearsName (name : Setting) (label : Option String) : Bool :=
  match name with
  | .text s => label == some s
  | .null => label.isNone
  | _ => false

def groupName (name : Setting) : GroupName := ⟨bearsName name, draftOf name, name.asText⟩

/-! ## Its entries -/

/-- The texts of the entries of a group that are marked with the name of a project. -/
def entriesFor (group : Object) (projectName : String) : List String :=
  ((group.refScalars "children").filter fun s => s.comment == some projectName).map Scalar.value

/-- The group lists a project of that name. -/
def listsProject (libraryFolder : Setting) (projectName : String) : Editing Bool := do
  match ← findGroup (groupName libraryFolder) with
  | some group => return !(entriesFor group projectName).isEmpty
  | none => return false

def projectSeed (library : String) : String := library ++ ":project"

/-- Adds the project of a library to the group, at a path seen from the app's own project. -/
def listProject (group : Object) (library projectName path : String) : Editing Unit := do
  let file ← add "PBXFileReference"
    [("lastKnownFileType", .text "wrapper.pb-project"), ("name", .text projectName), ("path", .text path),
      ("sourceTree", .text "<group>")]
    (some projectName) (projectSeed library)
  let _ ← append group.id "children" file.id (some projectName)

/-- Removes the entries of a project with the files they stand for, and then the group if nothing is left of it. -/
def unlistProject (libraryFolder : Setting) (projectName : String) : Editing Unit := do
  match ← findGroup (groupName libraryFolder) with
  | none => return
  | some group =>
    let entries := entriesFor group projectName
    for entry in entries do
      let _ ← detach group.id "children" entry
      let _ ← remove entry
    let left := entries.foldl (fun g entry => g.removeRef "children" entry) group
    dropGroup (some left) (groupName libraryFolder)

end Ios
end ModuleLink
