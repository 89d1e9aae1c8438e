import ModuleLink.Patch.Basic
import ModuleLink.Path

/-!
The lines of a Podfile that make pods part of a target.
-/

namespace ModuleLink
namespace Ios

open Patch

/-- The line for a pod that lives in a folder, at the top of a target. -/
def podInsertion (here : Path) (target pod : String) (folder podfile : Path) : Insertion :=
  { name := "podfile"
    anchor := some (.targetLine target)
    text := "  pod '" ++ pod ++ "', :path => '" ++ (Path.relative here folder podfile.parent).toString ++ "'\n" }

/-- A line for the pod starts here, perhaps after blank ones. -/
def podAt (pod cs : List Char) : Bool :=
  match (Text.after? "pod".toList (cs.dropWhile Text.isBlank)).bind Text.blanks? with
  | some rest => (quoted? pod rest).isSome
  | none => false

/-- Some line is for the pod; `fresh` says that a line starts at the front. -/
def hasPodFrom (pod : List Char) (fresh : Bool) : List Char → Bool
  | [] => false
  | c :: cs => fresh && podAt pod (c :: cs) || hasPodFrom pod (c == '\n') cs

def hasPod (pod : String) (content : List Char) : Bool := hasPodFrom pod.toList true content

end Ios
end ModuleLink
