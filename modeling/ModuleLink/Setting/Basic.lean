import ModuleLink.Number.Real
import ModuleLink.Setting.Moment
import ModuleLink.Text.Display

/-!
Values that users write into settings files.
-/

namespace ModuleLink

/-- A value of any kind.  Tables keep their entries in order, at most one for a key. -/
inductive Setting where
  | null
  | bool (b : Bool)
  | int (i : Int)
  | real (x : Number.Real)
  | text (s : String)
  | list (items : List Setting)
  | table (entries : List (String × Setting))
  | moment (m : Moment)

instance : Inhabited Setting := ⟨.null⟩

/-- The entries of a table. -/
abbrev Table := List (String × Setting)

namespace Table

/-- The value goes to the place of the key, which is the end for a new key. -/
def set (key : String) (v : Setting) : Table → Table
  | [] => [(key, v)]
  | (k, w) :: rest => if k = key then (k, v) :: rest else (k, w) :: set key v rest

def get? (t : Table) (key : String) : Option Setting := t.lookup key

end Table

namespace Setting

/-- Empty, zero and false values count as not given. -/
def isGiven : Setting → Bool
  | null => false
  | bool b => b
  | int i => i != 0
  | real x => !x.isZero
  | text s => !s.isEmpty
  | list items => !items.isEmpty
  | table entries => !entries.isEmpty
  | moment _ => true

/-- The name of the kind of a value. -/
def kind : Setting → String
  | null => "NoneType"
  | bool _ => "bool"
  | int _ => "int"
  | real _ => "float"
  | text _ => "str"
  | list _ => "list"
  | table _ => "dict"
  | moment (.date _) => "datetime.date"
  | moment (.clock _) => "datetime.time"
  | moment (.both _ _ _) => "datetime.datetime"

mutual

/-- A value as messages show it. -/
def display : Setting → String
  | null => "None"
  | bool b => if b then "True" else "False"
  | int i => toString i
  | real x => x.toString
  | text s => Text.display s
  | list items => "[" ++ String.intercalate ", " (displayItems items) ++ "]"
  | table entries => "\x7b" ++ String.intercalate ", " (displayEntries entries) ++ "\x7d"
  | moment m => m.display

def displayItems : List Setting → List String
  | [] => []
  | v :: rest => display v :: displayItems rest

def displayEntries : List (String × Setting) → List String
  | [] => []
  | (key, v) :: rest => (Text.display key ++ ": " ++ display v) :: displayEntries rest

end

/-- A value where text is wanted: texts as they are, others as they are shown. -/
def asText : Setting → String
  | text s => s
  | moment m => m.text
  | v => display v

end Setting

namespace Table

/-- The value of a key, if it counts as given. -/
def given? (t : Table) (key : String) : Option Setting := (t.get? key).filter Setting.isGiven

end Table
end ModuleLink
