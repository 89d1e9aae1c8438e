import ModuleLink.CommandLine.Run

/-!
The program.  Its input names the files of the app, one a line and folders with a slash at the end, up to an empty line.
What follows is typed as answers to questions.
-/

namespace ModuleLink
namespace Main

/-- All lines of the input, without their ends. -/
partial def readLines (input : IO.FS.Stream) (done : List String) : IO (List String) := do
  let line ← input.getLine
  if line.isEmpty then return done.reverse
  else
    let text := if line.endsWith "\n" then String.ofList line.toList.dropLast else line
    readLines input (text :: done)

/-- The node for a name in the list of files. -/
def readNode (name : String) : IO Node := do
  if name.endsWith "/" then return .folder []
  else return .file (← IO.FS.readBinFile name)

/-- Writes the files of the list whose bytes were changed. -/
def writeChanges (here : Path) (before after : Tree) (names : List String) : IO Unit := do
  for name in names do
    match before.read (here / name), after.read (here / name) with
    | .ok old, .ok new => if old != new then IO.FS.writeBinFile name new
    | _, _ => pure ()

end Main
end ModuleLink

open ModuleLink in
def main (arguments : List String) : IO UInt32 := do
  let lines ← ModuleLink.Main.readLines (← IO.getStdin) []
  let names := lines.takeWhile fun l => !l.isEmpty
  let typed := (lines.dropWhile fun l => !l.isEmpty).drop 1
  let here := Path.ofString ((← IO.getEnv "PWD").getD "/")
  let root ← names.foldlM (fun root name => do
    return Node.put (← ModuleLink.Main.readNode name) (here / name).parts root) (Node.put (.folder []) here.parts default)
  let before : Tree := { root := root, here := here }
  let input := String.intercalate "\n" typed
  let start : Workspace := { tree := before, terminal := { input := input.toList } }
  let (outcome, w) := (CommandLine.run arguments Java.Outline.ofSource).run start
  ModuleLink.Main.writeChanges here before w.tree names
  IO.print w.terminal.shown
  for n in w.notices do IO.eprintln n.text
  match outcome with
  | .ok code => return code.toUInt32
  | .error f =>
    IO.eprintln f.message
    return 1
