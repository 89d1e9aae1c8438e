import ModuleLink.Tree.Basic

/-!
Walks through a folder: each folder before the folders in it, and those in the order of their names.
-/

namespace ModuleLink

/-- A folder met on a walk: the names that lead to it, and its entries. -/
structure Visit where
  at_ : List String
  entries : List (String × Node)

namespace Visit

def fileNames (v : Visit) : List String := (v.entries.filter fun e => !e.2.isFolder).map (·.1)

def folderNames (v : Visit) : List String := (v.entries.filter fun e => e.2.isFolder).map (·.1)

end Visit

/-- Names in ascending order. -/
def sortNames (names : List String) : List String := names.mergeSort fun a b => decide (a ≤ b)

namespace Node

/-- Walks of the folders among some entries, by name. -/
def inOrder {α : Type} (walks : List (String × List α)) : List α :=
  (walks.mergeSort fun a b => decide (a.1 ≤ b.1)).flatMap (·.2)

mutual

/-- All folders from this one on, except those that `enter` refuses by name and what is in them. -/
def walk (enter : String → Bool) (at_ : List String) : Node → List Visit
  | file _ => []
  | folder entries => ⟨at_, entries⟩ :: inOrder (walkEntries enter at_ entries)

def walkEntries (enter : String → Bool) (at_ : List String) : List (String × Node) → List (String × List Visit)
  | [] => []
  | (name, c) :: rest =>
    if enter name then (name, walk enter (at_ ++ [name]) c) :: walkEntries enter at_ rest
    else walkEntries enter at_ rest

end

/-- Everything below a folder, with the names that lead to it. -/
def descendants (n : Node) : List (List String × Node) :=
  (n.walk (fun _ => true) []).flatMap fun v => v.entries.map fun (name, c) => (v.at_ ++ [name], c)

end Node

namespace Tree

/-- The walk from a path; nothing if no folder is there. -/
def walk (t : Tree) (p : Path) (enter : String → Bool) : List Visit :=
  match t.folder? p with
  | some n => n.walk enter []
  | none => []

end Tree
end ModuleLink
