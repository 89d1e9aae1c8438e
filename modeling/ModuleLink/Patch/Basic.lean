import ModuleLink.Fault
import ModuleLink.Patch.Anchor

/-!
Patches: texts inserted next to the one place of an anchor, and taken out again.
-/

namespace ModuleLink
namespace Patch

inductive Relation where
  | before
  | after
  /-- At the end of the file; there is no anchor. -/
  | append
deriving DecidableEq

/-- A named insertion. -/
structure Insertion where
  name : String
  anchor : Option Anchor
  text : String
  relation : Relation := .after
deriving DecidableEq

namespace Insertion

/-- The text as characters. -/
def chars (p : Insertion) : List Char := p.text.toList

def isEmpty (p : Insertion) : Bool := p.text.isEmpty

/-- The text stands somewhere.  An empty text always does. -/
def isIn (p : Insertion) (content : List Char) : Bool := Text.occursIn p.chars content

def requireAnchor (p : Insertion) : Except Fault Anchor :=
  match p.anchor with
  | some a => .ok a
  | none => .error (.noAnchor p.name)

/-- The insertion as it is reported when it cannot be made. -/
def placement (p : Insertion) (path : String) (a : Anchor) : Placement := ⟨path, p.name, a.spelling, p.text⟩

/-- The content with the text at a place. -/
def insertAt (p : Insertion) (content : List Char) (place : Nat) : List Char :=
  content.take place ++ p.chars ++ content.drop place

/-- The content without the text at a place. -/
def removeAt (p : Insertion) (content : List Char) (place : Nat) : List Char :=
  content.take place ++ content.drop (place + p.chars.length)

/-- The content with the insertion, or nothing if the text is there already or is empty.  The anchor has to stand in
exactly one place. -/
def apply (p : Insertion) (path : String) (content : List Char) : Except Fault (Option (List Char)) := do
  if p.isEmpty || p.isIn content then .ok none
  else
    match p.relation with
    | .append => .ok (some (content ++ p.chars))
    | relation =>
      let a ← p.requireAnchor
      match a.places content with
      | [] => .error (.anchorMissing (p.placement path a))
      | [(start, stop)] => .ok (some (p.insertAt content (if relation = .before then start else stop)))
      | many => .error (.anchorAmbiguous (p.placement path a) many.length)

/-- The place of the text next to an anchor at `start` to `stop`, if it stands there. -/
def besides? (p : Insertion) (content : List Char) (start stop : Nat) : Option Nat :=
  match p.relation with
  | .after => if Text.startsWith p.chars (content.drop stop) then some stop else none
  | _ => if Text.endsWith p.chars (content.take start) then some (start - p.chars.length) else none

/-- The only place of the text, if it has only one. -/
def onlyPlace? (p : Insertion) (content : List Char) : Option Nat :=
  if Text.count p.chars content = 1 then Text.indexOf? p.chars content else none

/-- The place of the text that was inserted: the one next to the anchor, or at the end, or the only one. -/
def locate (p : Insertion) (content : List Char) : Except Fault (Option Nat) := do
  if !p.isIn content then .ok none
  else
    match p.relation with
    | .append =>
      if Text.endsWith p.chars content then .ok (some (content.length - p.chars.length))
      else .ok (p.onlyPlace? content)
    | _ =>
      let a ← p.requireAnchor
      match (a.places content).findSome? fun (start, stop) => p.besides? content start stop with
      | some place => .ok (some place)
      | none => .ok (p.onlyPlace? content)

/-- What taking out an insertion comes to. -/
inductive Reversal where
  | absent
  /-- The text is there several times and none of them can be told to be the one. -/
  | ambiguous
  | removed (content : List Char)

def revert (p : Insertion) (content : List Char) : Except Fault Reversal := do
  if p.isEmpty then .ok .absent
  else
    match ← p.locate content with
    | some place => .ok (.removed (p.removeAt content place))
    | none => .ok (if p.isIn content then .ambiguous else .absent)

end Insertion
end Patch
end ModuleLink
