import ModuleLink.Tree.Walk

/-!
The headers of a library, and the search path that covers them.
-/

namespace ModuleLink
namespace Ios

/-- Folders whose headers are not the library's own. -/
def headerless : List String := ["node_modules", "Examples", "examples", "Pods", "sdks", "build"]

def isHeaderName (name : String) : Bool := Text.endsWith ".h".toList name.toList

/-- All headers of a library, folder by folder. -/
def findHeaders (t : Tree) (folder : Path) : List Path :=
  (t.walk folder fun name => !headerless.contains name).flatMap fun v =>
    (sortNames (v.fileNames.filter isHeaderName)).map fun name => (v.at_.foldl Path.child folder).child name

/-- A place as a build setting names it, seen from the folder of the project. -/
def underSourceRoot (here place sourceDir : Path) : String :=
  "$(SRCROOT)/" ++ (Path.relative here place sourceDir).toString

/-- The folder of the headers, or all below the lowest folder that holds them all. -/
def headerSearchPath (here sourceDir : Path) (headers : List Path) : Except Fault String := do
  match (headers.map Path.parent).eraseDups with
  | [folder] => return underSourceRoot here folder sourceDir
  | folders => return underSourceRoot here (← Path.common folders) sourceDir ++ "/**"

end Ios
end ModuleLink
