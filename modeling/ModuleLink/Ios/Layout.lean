import ModuleLink.Ios.Config
import ModuleLink.Tree.Walk

/-!
Finding the Xcode project and the podspec in a folder.
-/

namespace ModuleLink
namespace Ios

/-! ## Projects -/

/-- Folders that hold products, examples and other packages. -/
def unsearched : List String := ["node_modules", "Pods", "Carthage", "build", "Examples", "examples", ".git"]

def isProjectName (name : String) : Bool := Text.endsWith projectEnding.toList name.toList

def isWorkspaceName (name : String) : Bool := Text.endsWith ".xcworkspace".toList name.toList

/-- A folder that projects are looked for in. -/
def isSearched (name : String) : Bool := !unsearched.contains name && !isProjectName name && !isWorkspaceName name

/-- The projects in a folder and the searched folders below it, by the names that lead to them. -/
def projectsIn (n : Node) : List (List String) :=
  (n.walk isSearched []).flatMap fun v => (v.folderNames.filter isProjectName).map fun name => v.at_ ++ [name]

/-- The project stands where apps have theirs. -/
def isStandardPlace (names : List String) : Bool := names.dropLast == ["ios"]

def relativeText (names : List String) : String := String.intercalate "/" names

/-- Letters without their case; the long s counts as one. -/
def foldLetter (c : Char) : Char := if c = 'ſ' then 's' else c.toLower

/-- Words in the paths of projects that are not the one to link. -/
def trialWords : List String := ["test", "example", "sample"]

def isTrial (names : List String) : Bool :=
  let cs := (relativeText names).toList.map foldLetter
  trialWords.any fun word => Text.occursIn word.toList cs

/-- The standard place comes first, then the text of the path decides. -/
def precedes (a b : List String) : Bool :=
  if isStandardPlace a == isStandardPlace b then decide (relativeText a ≤ relativeText b) else isStandardPlace a

/-- The best project in a folder and below it. -/
def bestProject? (n : Node) : Option (List String) :=
  (((projectsIn n).filter fun p => isStandardPlace p || !isTrial p).mergeSort precedes).head?

def findProject (t : Tree) (folder : Path) : Option Path :=
  (t.folder? folder).bind fun n => (bestProject? n).map fun names => names.foldl Path.child folder

/-! ## Podspecs -/

def isPodspecName (name : String) : Bool := Text.endsWith ".podspec".toList name.toList

/-- The first podspec right inside a folder. -/
def podspecIn (t : Tree) (folder : Path) : Except Fault (Option Path) := do
  match ← t.find? folder with
  | some (.folder entries) => return (sortNames ((entries.map (·.1)).filter isPodspecName)).head?.map folder.child
  | _ => return none

/-- The podspec of a package: at its top, or else in its iOS folder. -/
def findPodspec (t : Tree) (folder : Path) : Except Fault (Option Path) := do
  match ← podspecIn t folder with
  | some path => return some path
  | none => podspecIn t (folder.child "ios")

end Ios
end ModuleLink
