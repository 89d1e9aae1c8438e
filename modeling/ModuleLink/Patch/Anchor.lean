import ModuleLink.Text.Classes
import ModuleLink.Text.Search

/-!
Anchors: what a patch is placed next to.  Each has a matcher, which tells how many characters it takes from the front of
a text, and a spelling for messages.
-/

namespace ModuleLink
namespace Patch

/-- A text, or one of the lines and tags that build files are known by. -/
inductive Anchor where
  | literal (text : String)
  /-- The line that includes the app module. -/
  | includeLine (app : String)
  /-- The line that opens the dependencies. -/
  | dependenciesLine
  /-- The opening tag of the string resources, to the end of its line. -/
  | resourcesTag
  /-- The line that opens a target. -/
  | targetLine (target : String)
deriving DecidableEq

/-! ## Pieces of a line -/

def skipGaps (cs : List Char) : List Char := cs.dropWhile Text.isGap

def gaps? (cs : List Char) : Option (List Char) :=
  match cs with
  | c :: rest => if Text.isGap c then some (skipGaps rest) else none
  | [] => none

def optional (c : Char) : List Char → List Char
  | d :: rest => if d = c then rest else d :: rest
  | [] => []

def quoteMark? : List Char → Option (List Char)
  | c :: rest => if c = '\'' || c = '"' then some rest else none
  | [] => none

/-- Gaps and a line end. -/
def lineEnd? (cs : List Char) : Option (List Char) :=
  Text.after? ['\n'] (optional '\r' (skipGaps cs))

/-- A text between quotes of either kind. -/
def quoted? (text cs : List Char) : Option (List Char) := do
  let cs ← quoteMark? cs
  let cs ← Text.after? text cs
  quoteMark? cs

namespace Anchor

/-- What follows the anchor, if it stands at the front; `fresh` says that a line starts here. -/
def rest? (a : Anchor) (fresh : Bool) (cs : List Char) : Option (List Char) :=
  match a with
  | literal text => Text.after? text.toList cs
  | includeLine app =>
    if fresh then do
      let cs ← Text.after? "include".toList cs
      let cs ← quoted? (':' :: app.toList) (skipGaps (optional '(' (skipGaps cs)))
      lineEnd? (optional ')' (skipGaps cs))
    else none
  | dependenciesLine =>
    if fresh then do
      let cs ← Text.after? "dependencies".toList cs
      let cs ← Text.after? ['\x7b'] (skipGaps cs)
      lineEnd? cs
    else none
  | resourcesTag => do
    let cs ← Text.after? "<resources".toList cs
    match cs with
    | c :: _ =>
      if Text.isWord c then none
      else
        let cs ← Text.after? ['>'] (cs.dropWhile (· != '>'))
        lineEnd? cs
    | [] => none
  | targetLine target =>
    if fresh then do
      let cs ← Text.after? "target".toList (skipGaps cs)
      let cs ← gaps? cs
      let cs ← quoted? target.toList cs
      let cs ← gaps? cs
      let cs ← Text.after? "do".toList cs
      lineEnd? cs
    else none

/-- How many characters the anchor takes from the front. -/
def length? (a : Anchor) (fresh : Bool) (cs : List Char) : Option Nat :=
  (a.rest? fresh cs).map fun rest => cs.length - rest.length

/-- The places of the anchor, none overlapping the one before it; `busy` characters still belong to the last one. -/
def placesFrom (a : Anchor) (place : Nat) : (busy : Nat) → (fresh : Bool) → List Char → List (Nat × Nat)
  | 0, fresh, [] =>
    match a.length? fresh [] with
    | some n => [(place, place + n)]
    | none => []
  | _ + 1, _, [] => []
  | k + 1, _, c :: cs => placesFrom a (place + 1) k (c == '\n') cs
  | 0, fresh, c :: cs =>
    match a.length? fresh (c :: cs) with
    | some n => (place, place + n) :: placesFrom a (place + 1) (n - 1) (c == '\n') cs
    | none => placesFrom a (place + 1) 0 (c == '\n') cs

/-- The places of the anchor in a text. -/
def places (a : Anchor) (cs : List Char) : List (Nat × Nat) := a.placesFrom 0 0 true cs

/-! ## Spelling -/

/-- Characters with a meaning of their own in a pattern. -/
def special : List Char := "()[]\x7b\x7d?*+-|^$\\.&~# \t\n\r\x0b\x0c".toList

/-- A text as the part of a pattern that stands for it. -/
def escapePattern (text : String) : String :=
  String.ofList (text.toList.flatMap fun c => if special.contains c then ['\\', c] else [c])

def spelling : Anchor → String
  | literal text => text
  | includeLine app =>
    "^include[ \\t]*\\(?[ \\t]*['\\\"]:" ++ escapePattern app ++ "['\\\"][ \\t]*\\)?[ \\t]*\\r?\\n"
  | dependenciesLine => "^dependencies[ \\t]*\\\x7b[ \\t]*\\r?\\n"
  | resourcesTag => "<resources\\b[^>]*>[ \\t]*\\r?\\n"
  | targetLine target =>
    "^[ \\t]*target[ \\t]+['\\\"]" ++ escapePattern target ++ "['\\\"][ \\t]+do[ \\t]*\\r?\\n"

end Anchor
end Patch
end ModuleLink
