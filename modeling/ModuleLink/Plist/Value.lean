import ModuleLink.Plist.Scalar

/-!
Values of a property list.  A dictionary keeps its entries in order and remembers how each key was written, also after
the entry has gone.
-/

namespace ModuleLink
namespace Plist

/-- Entries in order, and the written form of the keys that were read from a text. -/
structure Dict (α : Type) where
  entries : List (String × α) := []
  spellings : List (String × Scalar) := []

namespace Dict

variable {α : Type}

def get? (d : Dict α) (key : String) : Option α := d.entries.lookup key

def keys (d : Dict α) : List String := d.entries.map (·.1)

/-- The value goes to the place of the key, which is the end for a new key. -/
def assign {β : Type} (key : String) (v : β) : List (String × β) → List (String × β)
  | [] => [(key, v)]
  | (k, w) :: rest => if k = key then (k, v) :: rest else (k, w) :: assign key v rest

/-- The value goes before the first key that sorts after the new one. -/
def placeSorted (key : String) (v : α) : List (String × α) → List (String × α)
  | [] => [(key, v)]
  | (k, w) :: rest => if key < k then (key, v) :: (k, w) :: rest else (k, w) :: placeSorted key v rest

def set (d : Dict α) (key : String) (v : α) : Dict α :=
  { d with entries := assign key v d.entries }

def setSorted (d : Dict α) (key : String) (v : α) : Dict α :=
  if (d.get? key).isSome then d.set key v else { d with entries := placeSorted key v d.entries }

def erase (d : Dict α) (key : String) : Dict α :=
  { d with entries := d.entries.filter fun e => e.1 ≠ key }

/-- An entry as it was read, with the written form of its key. -/
def read (d : Dict α) (key : Scalar) (v : α) : Dict α :=
  ⟨assign key.value v d.entries, assign key.value key d.spellings⟩

/-- How a key is written. -/
def spelling (d : Dict α) (key : String) : Scalar :=
  (d.spellings.lookup key).getD (Scalar.of key)

/-- Entries that were not read from a text; of two with one key the later wins. -/
def ofEntries (entries : List (String × α)) : Dict α :=
  ⟨entries.foldl (fun done e => assign e.1 e.2 done) [], []⟩

end Dict

/-- A scalar, a list or a dictionary. -/
inductive Value where
  | scalar (s : Scalar)
  | list (items : List Value)
  | dict (d : Dict Value)

namespace Value

def text (s : String) : Value := .scalar (Scalar.of s)

def asScalar? : Value → Option Scalar
  | .scalar s => some s
  | _ => none

def asDict? : Value → Option (Dict Value)
  | .dict d => some d
  | _ => none

/-- The value is a scalar that stands for `text`. -/
def isText (v : Value) (text : String) : Bool :=
  match v with
  | .scalar s => s.value == text
  | _ => false

end Value

end Plist
end ModuleLink
