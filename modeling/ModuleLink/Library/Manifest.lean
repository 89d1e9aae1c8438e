import ModuleLink.Library.Naming
import ModuleLink.Setting.Json
import ModuleLink.Tree.Basic

/-!
The package manifest of an app, and the libraries it depends on.
-/

namespace ModuleLink
namespace Library

def manifestName : String := "package.json"

/-- The manifest in a folder, if it can be read and is a table. -/
def manifest? (t : Tree) (folder : Path) : Option Table :=
  match t.readText (folder.child manifestName) with
  | .error _ => none
  | .ok text =>
    match Json.read text with
    | some (.table entries) => some entries
    | _ => none

/-- The tables of a manifest that name other packages. -/
def dependencyTables : List String := ["dependencies", "devDependencies"]

/-- The names that a manifest depends on, each where it stands first. -/
def dependencyNames (manifest : Table) : List String :=
  (dependencyTables.flatMap fun key =>
    match manifest.get? key with
    | some (.table entries) => entries.map (·.1)
    | _ => []).eraseDups

/-- The libraries with native code that the app in a folder depends on. -/
def discover (t : Tree) (folder : Path) : List String :=
  match manifest? t folder with
  | some manifest => (dependencyNames manifest).filter isNative
  | none => []

end Library
end ModuleLink
