import ModuleLink.Fault
import ModuleLink.Text.Classes

/-!
The platforms a library can be linked on, in the order they are processed.
-/

namespace ModuleLink

inductive Platform where
  | ios
  | android
deriving DecidableEq

namespace Platform

def all : List Platform := [ios, android]

def name : Platform → String
  | ios => "ios"
  | android => "android"

/-- The name as it is shown. -/
def label : Platform → String
  | ios => "iOS"
  | android => "Android"

/-- A platform by its name, whatever its case and the blanks around it. -/
def ofName? (text : String) : Option Platform :=
  let plain := String.ofList ((Text.trim text.toList).map Char.toLower)
  all.find? fun p => p.name == plain

/-- Every platform named, once, in the order of the names. -/
def parse : List String → Except Fault (List Platform)
  | [] => .ok []
  | name :: rest =>
    match ofName? name with
    | none => .error (.unknownPlatform name)
    | some p => (parse rest).map fun ps => p :: ps.filter (· ≠ p)

/-- The platforms to process, in their own order: all of them unless some are selected. -/
def select (selected : Option (List Platform)) : List Platform :=
  match selected with
  | none => all
  | some ps => all.filter ps.contains

end Platform
end ModuleLink
