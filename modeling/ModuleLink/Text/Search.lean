/-!
Finding a text inside another.  Positions count characters.
-/

namespace ModuleLink
namespace Text

/-- What follows `p` at the front of the text, if `p` stands there. -/
def after? : (p cs : List Char) → Option (List Char)
  | [], cs => some cs
  | _ :: _, [] => none
  | a :: p, c :: cs => if a = c then after? p cs else none

theorem after?_eq_some_iff {p cs r : List Char} : after? p cs = some r ↔ cs = p ++ r := by
  induction p generalizing cs with
  | nil => simp [after?, eq_comm]
  | cons a p ih =>
    cases cs with
    | nil => simp [after?]
    | cons c cs =>
      by_cases h : a = c
      · subst h; simp [after?, ih]
      · simp [after?, h, Ne.symm h]

/-- `p` stands at the front. -/
def startsWith (p cs : List Char) : Bool := (after? p cs).isSome

/-- `p` stands at the end. -/
def endsWith (p cs : List Char) : Bool := startsWith p.reverse cs.reverse

/-- The position of the first occurrence. -/
def indexOf? (p : List Char) : List Char → Option Nat
  | [] => if p.isEmpty then some 0 else none
  | c :: cs => if startsWith p (c :: cs) then some 0 else (indexOf? p cs).map (· + 1)

/-- `p` stands somewhere. -/
def occursIn (p cs : List Char) : Bool := (indexOf? p cs).isSome

/-- Occurrences of a text `p` that is not empty, none overlapping the one before it; `busy` characters still belong to
the last one. -/
def countFrom (p : List Char) : (busy : Nat) → List Char → Nat
  | _, [] => 0
  | k + 1, _ :: cs => countFrom p k cs
  | 0, c :: cs =>
    if startsWith p (c :: cs) then countFrom p (p.length - 1) cs + 1 else countFrom p 0 cs

def count (p cs : List Char) : Nat := countFrom p 0 cs

/-- The parts between the characters that satisfy `sep`. -/
def splitBy (sep : Char → Bool) : List Char → List (List Char)
  | [] => [[]]
  | c :: cs =>
    if sep c then [] :: splitBy sep cs
    else
      match splitBy sep cs with
      | [] => [[c]]
      | part :: rest => (c :: part) :: rest

/-- How many lines end in the text. -/
def newlines (cs : List Char) : Nat := cs.countP (· == '\n')

end Text
end ModuleLink
