import ModuleLink.Param
import ModuleLink.Patch.Anchor
import ModuleLink.Text.Search
import ModuleLink.Tree.Basic

/-!
The values of params as string resources: written as entries, and read back from a resource file.
-/

namespace ModuleLink
namespace Android

/-! ## Markup -/

def escapeMarkupChar (c : Char) : List Char :=
  if c = '&' then "&amp;".toList
  else if c = '<' then "&lt;".toList
  else if c = '>' then "&gt;".toList
  else [c]

def escapeMarkup (cs : List Char) : List Char := cs.flatMap escapeMarkupChar

/-- Undoes the three escapes and leaves all else. -/
def unescapeMarkup : List Char → List Char
  | [] => []
  | '&' :: 'a' :: 'm' :: 'p' :: ';' :: cs => '&' :: unescapeMarkup cs
  | '&' :: 'l' :: 't' :: ';' :: cs => '<' :: unescapeMarkup cs
  | '&' :: 'g' :: 't' :: ';' :: cs => '>' :: unescapeMarkup cs
  | c :: cs => c :: unescapeMarkup cs

/-! ## Entries -/

/-- What every entry of a prefix starts with. -/
def entryStart (stem : String) : List Char := "<string moduleConfig=\"true\" name=\"".toList ++ stem.toList ++ ['_']

def entryMiddle : List Char := "\">".toList

def entryEnd : List Char := "</string>".toList

/-- One entry without its line. -/
def entry (stem name value : String) : List Char :=
  entryStart stem ++ name.toList ++ entryMiddle ++ escapeMarkup value.toList ++ entryEnd

/-- A line for every param. -/
def entryLines (stem : String) (params : Answers) : List Char :=
  params.flatMap fun p => "    ".toList ++ entry stem p.1 p.2 ++ ['\n']

/-! ## Reading -/

/-- What stands before the first end of an entry, and how long it is with its end. -/
def entryBody? (cs : List Char) : Option (List Char) :=
  (Text.indexOf? entryEnd cs).map cs.take

/-- The entry at the front: its param, its value, and its length. -/
def entryAt? (stem : String) (cs : List Char) : Option (String × String × Nat) := do
  let rest ← Text.after? (entryStart stem) cs
  let name := rest.takeWhile Text.isWord
  if name.isEmpty then none
  else
    let rest ← Text.after? entryMiddle (rest.dropWhile Text.isWord)
    let body ← entryBody? rest
    return (String.ofList name, String.ofList (unescapeMarkup body),
      cs.length - rest.length + body.length + entryEnd.length)

/-- The entries of a text, none overlapping the one before it; `busy` characters still belong to the last one. -/
def entriesFrom (stem : String) : (busy : Nat) → List Char → List (String × String)
  | _, [] => []
  | k + 1, _ :: cs => entriesFrom stem k cs
  | 0, c :: cs =>
    match entryAt? stem (c :: cs) with
    | some (name, value, n) => (name, value) :: entriesFrom stem (n - 1) cs
    | none => entriesFrom stem 0 cs

/-- The params in a resource file.  Of two entries for one param the later gives the value. -/
def readParams (stem : String) (content : List Char) : Answers :=
  (entriesFrom stem 0 content).foldl (fun done e => Answers.record e.1 e.2 done) []

/-- The params in a resource file; one that is not there has none. -/
def moduleParams (t : Tree) (resources : Path) (stem : String) : Except Fault Answers :=
  match t.readText resources with
  | .ok content => .ok (readParams stem content.toList)
  | .error (.inaccessible .missing _) => .ok []
  | .error f => .error f

end Android
end ModuleLink
