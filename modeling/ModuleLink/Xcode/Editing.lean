import ModuleLink.Attempt
import ModuleLink.Xcode.Edit

/-!
Runs of questions and changes on one graph.
-/

namespace ModuleLink
namespace Xcode

open Plist

/-- A step on a graph. -/
abbrev Editing (α : Type) := Attempt Graph α

/-- What a group is found by and made with. -/
structure GroupName where
  /-- Whether a label is this name. -/
  fits : Option String → Bool
  draft : Draft
  shown : String

namespace GroupName

/-- The name given by a text. -/
def of (name : String) : GroupName := ⟨fun label => label == some name, .text name, name⟩

/-- The id that a new group of this name gets. -/
def id (n : GroupName) : String := Digest.stableId ("group:" ++ n.shown)

end GroupName

namespace Editing

def ask {α : Type} (question : Graph → Except Fault α) : Editing α := do
  Attempt.ofExcept (question (← get))

def add (isa : String) (fields : List (String × Draft)) (comment : Option String) (seed : String) : Editing Object := do
  let (g, o) ← Attempt.ofExcept ((← get).addObject isa fields comment seed)
  set g
  return o

def remove (id : String) : Editing Bool := Attempt.ofStep fun g => g.removeObject id

def append (owner key ref : String) (comment : Option String) : Editing Bool :=
  Attempt.ofStep fun g => let (g, changed) := g.appendRef owner key ref comment; (g, .ok changed)

def detach (owner key ref : String) : Editing Bool :=
  Attempt.ofStep fun g => let (g, changed) := g.removeRef owner key ref; (g, .ok changed)

/-! ## Groups -/

def findGroup (name : GroupName) : Editing (Option Object) := ask fun g => g.findGroup name.fits

/-- The group of that name, made and put into the main group where there is none.  Without a main group there is
nothing to put it into. -/
def ensureGroup (name : GroupName) : Editing (Option Object) := do
  match ← findGroup name with
  | some group => return some group
  | none =>
    match ← ask Graph.mainGroup with
    | none => return none
    | some main =>
      let group ← add "PBXGroup" [("children", .list []), ("name", name.draft), ("sourceTree", .text "<group>")]
        (some name.shown) ("group:" ++ name.shown)
      let _ ← append main.id "children" group.id (some name.shown)
      return some group

/-- Removes a group that is empty and has the id that `ensureGroup` gives. -/
def dropGroup (group : Option Object) (name : GroupName) : Editing Unit := do
  match group with
  | none => return
  | some group =>
    if !(group.refs "children").isEmpty || group.id != name.id then return
    match ← ask Graph.mainGroup with
    | some main => let _ ← detach main.id "children" group.id
    | none => pure ()
    let _ ← remove group.id

end Editing
end Xcode
end ModuleLink
