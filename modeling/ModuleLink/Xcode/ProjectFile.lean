import ModuleLink.Workspace
import ModuleLink.Xcode.Editing
import ModuleLink.Xcode.Serialise

/-!
Project files: read into a graph, and written back when the graph was changed.
-/

namespace ModuleLink
namespace Xcode
namespace ProjectFile

open Workspace

/-- The graph in a project file.  A file that cannot be read as text is a bad project. -/
def load (t : Tree) (file : Path) : Except Fault Graph :=
  match t.readText file with
  | .ok text => Graph.load file.toString text.toList
  | .error (.inaccessible o p) => .error (.badProject file.toString (Fault.inaccessible o p).message none)
  | .error (.undecodable u) => .error (.badProject file.toString u.message none)
  | .error f => .error f

/-- Writes a graph that was changed.  What is written has to be a project again. -/
def save (file : Path) (g : Graph) : Step Unit := do
  if g.isModified then
    let text ← Attempt.ofExcept g.serialise
    writeText file (String.ofList text)
    let _ ← Attempt.ofExcept (Graph.load g.source text)

/-- The outcome of edits on a graph, with the graph they lead to. -/
def edited {α : Type} (edits : Editing α) (g : Graph) : Except Fault (α × Graph) :=
  let (r, g) := edits.run g
  r.map fun a => (a, g)

end ProjectFile
end Xcode
end ModuleLink
