import ModuleLink.Text.Ranges

/-!
Character classes.  ASCII is decided by inspection, every other character by the Unicode tables.
-/

namespace ModuleLink
namespace Text

/-- White space, in the wide sense that counts the four information separators. -/
def isBlank (c : Char) : Bool :=
  let n := c.toNat
  (9 ≤ n && n ≤ 13) || (28 ≤ n && n ≤ 32) || n == 0x85 || n == 0xA0 || n == 0x1680 ||
    (0x2000 ≤ n && n ≤ 0x200A) || n == 0x2028 || n == 0x2029 || n == 0x202F || n == 0x205F || n == 0x3000

/-- A space or a tab. -/
def isGap (c : Char) : Bool := c == ' ' || c == '\t'

def isAscii (c : Char) : Bool := c.toNat < 128

/-- A decimal digit of any script. -/
def isDecimal (c : Char) : Bool :=
  if isAscii c then c.isDigit else Ranges.has Ranges.decimals c

def isLetter (c : Char) : Bool :=
  if isAscii c then c.isAlpha else Ranges.has Ranges.letters c

/-- A letter, a number of any kind or an underscore. -/
def isWord (c : Char) : Bool :=
  if isAscii c then c.isAlphanum || c == '_'
  else Ranges.has Ranges.letters c || Ranges.has Ranges.decimals c || Ranges.has Ranges.letterNumbers c ||
    Ranges.has Ranges.otherNumbers c

/-- A character with a shape of its own, or the space. -/
def isVisible (c : Char) : Bool :=
  if isAscii c then 32 ≤ c.toNat && c.toNat < 127 else !Ranges.has Ranges.hidden c

/-- The text without the blank characters at its two ends. -/
def trim (cs : List Char) : List Char :=
  ((cs.dropWhile isBlank).reverse.dropWhile isBlank).reverse

/-- Nothing but blank characters. -/
def isBlankText (cs : List Char) : Bool := cs.all isBlank

/-- What follows the one blank character at the front. -/
def blank? : List Char → Option (List Char)
  | c :: cs => if isBlank c then some cs else none
  | [] => none

/-- What follows all the blank characters at the front, if there is one. -/
def blanks? (cs : List Char) : Option (List Char) := (blank? cs).map (·.dropWhile isBlank)

end Text
end ModuleLink
