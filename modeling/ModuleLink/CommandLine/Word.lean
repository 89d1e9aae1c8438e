import ModuleLink.Text.Classes
import ModuleLink.Text.Search

/-!
Telling the words of a command line apart: values, options in their long and short forms, and the divider behind which
every word is a value.
-/

namespace ModuleLink
namespace CommandLine

inductive Switch where
  | help
  | noInput
  | root
  | platforms
  | verbose
deriving DecidableEq

namespace Switch

/-- The long name, without its two hyphens. -/
def longName : Switch → String
  | help => "help"
  | noInput => "no-input"
  | root => "root"
  | platforms => "platforms"
  | verbose => "verbose"

def letter? : Switch → Option Char
  | help => some 'h'
  | verbose => some 'v'
  | _ => none

/-- The option is followed by a value. -/
def takesValue : Switch → Bool
  | root | platforms => true
  | _ => false

def ofLetter? (known : List Switch) (c : Char) : Option Switch := known.find? fun s => s.letter? == some c

/-- The options whose long names start with `cs`. -/
def startingWith (known : List Switch) (cs : List Char) : List Switch :=
  known.filter fun s => Text.startsWith cs s.longName.toList

end Switch

inductive Word where
  | value (text : String)
  /-- Two hyphens alone. -/
  | divider
  /-- A long name, perhaps with a value behind an equals sign. -/
  | long (s : Switch) (attached : Option String)
  /-- Letters behind one hyphen.  Those from the first unknown one on are left over. -/
  | short (letters : List Switch) (leftOver : Bool)
  /-- Letters that cannot be told apart, because an equals sign or a hyphen is among them. -/
  | garbled
  /-- An option that is not known. -/
  | unknown
deriving DecidableEq

namespace Word

/-- Digits, perhaps with a point before the last of them, and perhaps a line end. -/
def isNumber (cs : List Char) : Bool :=
  let cs := if Text.endsWith ['\n'] cs then cs.dropLast else cs
  let rest := cs.dropWhile Text.isDecimal
  match rest with
  | [] => !cs.isEmpty
  | '.' :: places => !places.isEmpty && places.all Text.isDecimal
  | _ => false

/-- What follows the known letter `s` behind one hyphen. -/
def letters (known : List Switch) (s : Switch) : List Char → Word
  | [] => short [s] false
  | c :: cs =>
    if c = '=' || c = '-' then garbled
    else
      match Switch.ofLetter? known c with
      | none => short [s] true
      | some next =>
        match letters known next cs with
        | short more leftOver => short (s :: more) leftOver
        | other => other

/-- A word that starts with a hyphen and is no known option. -/
def unclear (text : String) : Word :=
  let cs := text.toList
  if isNumber (cs.drop 1) || cs.contains ' ' then value text else unknown

/-- A word that starts with two hyphens, by what follows them; none if it may stand for several options. -/
def ofLong? (known : List Switch) (text : String) (cs : List Char) : Option Word :=
  let name := cs.takeWhile (· != '=')
  let attached := match cs.dropWhile (· != '=') with
    | '=' :: rest => some (String.ofList rest)
    | _ => none
  match Switch.startingWith known name with
  | [] => some (unclear text)
  | [s] => some (long s attached)
  | _ => none

/-- A word before any divider; none if it may stand for several options. -/
def of? (known : List Switch) (text : String) : Option Word :=
  match text.toList with
  | ['-', '-'] => some divider
  | '-' :: '-' :: cs => ofLong? known text cs
  | '-' :: c :: cs =>
    match Switch.ofLetter? known c with
    | some s => some (letters known s cs)
    | none => some (unclear text)
  | _ => some (value text)

/-- All words; none if one of them may stand for several options. -/
def all? (known : List Switch) : List String → Option (List Word)
  | [] => some []
  | text :: rest =>
    match of? known text with
    | none => none
    | some divider => some (divider :: rest.map value)
    | some w => (all? known rest).map (w :: ·)

end Word
end CommandLine
end ModuleLink
