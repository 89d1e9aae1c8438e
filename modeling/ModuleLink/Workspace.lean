import ModuleLink.Notice
import ModuleLink.Param
import ModuleLink.Tree.Basic

/-!
What a run works on: the files, the terminal and the notices it leaves.
-/

namespace ModuleLink

structure Workspace where
  tree : Tree
  notices : List Notice := []
  terminal : Terminal := {}

instance : HasNotices Workspace := ⟨fun n w => { w with notices := w.notices ++ [n] }⟩

namespace Workspace

/-- A step on a workspace. -/
abbrev Step (α : Type) := Attempt Workspace α

variable {α : Type}

/-- A question to the files. -/
def look (question : Tree → Except Fault α) : Step α := do
  Attempt.ofExcept (question (← get).tree)

/-- A survey of the files. -/
def survey (x : Tree → Survey α) : Step α := do
  let tree := (← get).tree
  Attempt.zoom Workspace.notices (fun ns w => { w with notices := ns }) (x tree)

def readText (p : Path) : Step String := look fun t => t.readText p

def writeText (p : Path) (text : String) : Step Unit := do
  let tree ← look fun t => t.write p text
  modify fun w => { w with tree := tree }

/-- The terminal asks. -/
def askTerminal (p : Param) : Step String :=
  Attempt.zoom Workspace.terminal (fun t w => { w with terminal := t }) (Terminal.ask p)

end Workspace
end ModuleLink
