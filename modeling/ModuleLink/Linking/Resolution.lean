import ModuleLink.Linking.Sides

/-!
The app and its libraries, as their folders and settings describe them.
-/

namespace ModuleLink
namespace Linking

variable {F : Platform → Type}

/-! ## Sides -/

/-- The side for one platform, unless the settings rule the platform out. -/
def sideUnder (settings : Table) (resolve : (p : Platform) → Table → Survey (Option (F p))) (p : Platform) :
    Survey (Option (F p)) := do
  match ← Overrides.forPlatform settings p with
  | some section_ => resolve p section_
  | none => return none

/-- The sides for some platforms, found in their order; other platforms have none. -/
def sidesUnder (settings : Table) (resolve : (p : Platform) → Table → Survey (Option (F p))) :
    List Platform → Survey ((p : Platform) → Option (F p))
  | [] => return fun _ => none
  | p :: rest => do
    let side ← sideUnder settings resolve p
    let others ← sidesUnder settings resolve rest
    return fun q => if h : p = q then h ▸ side else others q

/-- What the app in a folder has for each platform. -/
def appSides (t : Tree) (root : Path) (platforms : List Platform) : Survey ((p : Platform) → Option (AppSide p)) := do
  let settings ← Overrides.read t root
  sidesUnder settings (appSide t root) platforms

/-! ## Libraries -/

/-- The declared params, as a list.  A text counts as its characters and a table as its keys. -/
def declarations (settings : Table) : Except Fault (List Setting) :=
  match settings.given? "params" with
  | none => .ok []
  | some (.list items) => .ok items
  | some (.text s) => .ok (s.toList.map fun c => .text (String.singleton c))
  | some (.table entries) => .ok (entries.map fun e => .text e.1)
  | some _ => .error .settingKind

/-- The param that a declaration stands for, if it is a table with a name. -/
def param? (folder : Path) (declaration : Setting) : Survey (Option Param) := do
  let named := match declaration with
    | .table entries => if (Table.given? entries "name").isSome then some entries else none
    | _ => none
  match named with
  | some entries => return some (← Attempt.ofExcept (Param.ofTable entries))
  | none =>
    Survey.warn ("Ignoring malformed param " ++ declaration.display ++ " in " ++ folder.toString)
    return none

/-- Where the packages of an app are. -/
def packageFolder (root : Path) (name : String) : Path := root.child "node_modules" / name

/-- The installed library of a name. -/
def dependency (t : Tree) (root : Path) (platforms : List Platform) (name : String)
    (java : Java.Outline.Parser := Java.Outline.ofSource) : Survey (Dependency LibrarySide) := do
  let folder := packageFolder root name
  if !(← Attempt.ofExcept (t.isFolder folder)) then throw (.unknownLibrary name folder.toString)
  let settings ← Overrides.read t folder
  let sides ← sidesUnder settings (librarySide java t folder) platforms
  let params ← (← Attempt.ofExcept (declarations settings)).mapM (param? folder)
  return { name := name, folder := folder, side? := sides, params := params.reduceOption }

/-- Libraries that could be resolved, and what is wrong with the others by their names. -/
structure Resolved where
  dependencies : List (Dependency LibrarySide) := []
  failed : List (String × Fault) := []

/-- Resolves the libraries of some names.  A fault of one library leaves the others alone. -/
def resolveAll (t : Tree) (root : Path) (platforms : List Platform) (names : List String)
    (java : Java.Outline.Parser := Java.Outline.ofSource) : Survey Resolved :=
  match names with
  | [] => return {}
  | name :: rest => do
    let here : Except Fault (Dependency LibrarySide) ← (dependency t root platforms name java).outcome
    match here with
    | .ok d =>
      let later ← resolveAll t root platforms rest java
      return { later with dependencies := d :: later.dependencies }
    | .error f =>
      match f.ofLibrary? name with
      | none => throw f
      | some fault =>
        let later ← resolveAll t root platforms rest java
        return { later with failed := (name, fault) :: later.failed.filter fun e => e.1 != name }

end Linking
end ModuleLink
