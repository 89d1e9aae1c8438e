/-!
Replacing stretches of a text.
-/

namespace ModuleLink
namespace Text

/-- The stretch from `start` to `stop` becomes `text`. -/
structure Edit where
  start : Nat
  stop : Nat
  text : List Char

namespace Edit

/-- By place; of two edits at one place the one that replaces less comes first. -/
def before (a b : Edit) : Bool :=
  a.start < b.start || (a.start == b.start && a.stop ≤ b.stop)

end Edit

/-- The text with all edits made, or the first edit that starts inside the one before it.  `left` starts at `cursor`. -/
def splice (cursor : Nat) (left : List Char) : List Edit → Except Edit (List Char)
  | [] => .ok left
  | e :: rest =>
    if e.start < cursor then .error e
    else
      match splice e.stop (left.drop (e.stop - cursor)) rest with
      | .ok tail => .ok (left.take (e.start - cursor) ++ e.text ++ tail)
      | .error e => .error e

/-- Edits in the order of their places; those at one place keep their order. -/
def applyEdits (text : List Char) (edits : List Edit) : Except Edit (List Char) :=
  splice 0 text (edits.mergeSort Edit.before)

end Text
end ModuleLink
