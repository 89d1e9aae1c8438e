import ModuleLink.Plist.Value

/-!
The object graph of an Xcode project: the objects of its table, and for each the place in the text it was read from.
-/

namespace ModuleLink
namespace Xcode

open Plist

/-- A node of the object table with all its fields. -/
structure Object where
  id : String
  fields : Dict Value
  comment : Option String := none

namespace Object

def field? (o : Object) (key : String) : Option Value := o.fields.get? key

/-- The text of a scalar field. -/
def text? (o : Object) (key : String) : Option String :=
  match o.field? key with
  | some (.scalar s) => some s.value
  | _ => none

/-- The kind of the object, empty where it has none. -/
def isa (o : Object) : String := (o.text? "isa").getD ""

/-- The scalars of a list field. -/
def refScalars (o : Object) (key : String) : List Scalar :=
  match o.field? key with
  | some (.list items) => items.filterMap Value.asScalar?
  | _ => []

/-- The texts of a list field. -/
def refs (o : Object) (key : String) : List String := (o.refScalars key).map Scalar.value

def setField (o : Object) (key : String) (v : Value) : Object := { o with fields := o.fields.set key v }

end Object

/-- Where an object stands in the text, with its whole lines if nothing else is on them. -/
structure Span where
  start : Nat
  stop : Nat
  indent : List Char
  wholeLine : Bool
  inline : Bool

/-- A stretch of the text between the two marker lines of a kind, and the objects of that kind in it. -/
structure Section where
  isa : String
  beginStart : Nat
  beginStop : Nat
  endStart : Nat
  endStop : Nat
  members : List String

/-- The objects of a project and what has been done to them since the text was read. -/
structure Graph where
  source : String
  text : List Char
  root : Dict Value
  /-- Where the brace stands that closes the object table. -/
  tableEnd : Nat
  /-- The table, in order. -/
  objects : List Object
  /-- The ids of each kind, in order. -/
  index : List (String × List String)
  spans : List (String × Span)
  sections : List Section
  added : List String := []
  removed : List String := []
  touched : List String := []

namespace Graph

def get? (g : Graph) (id : String) : Option Object := g.objects.find? (·.id == id)

def contains (g : Graph) (id : String) : Bool := (g.get? id).isSome

def ids (g : Graph) : List String := g.objects.map (·.id)

/-- The object takes the place of the one with its id. -/
def store (g : Graph) (o : Object) : Graph :=
  { g with objects := g.objects.map fun p => if p.id == o.id then o else p }

def isModified (g : Graph) : Bool :=
  !(g.added.isEmpty && g.removed.isEmpty && g.touched.isEmpty)

end Graph

/-- Puts an id at the end of the list of its kind. -/
def indexInsert (isa id : String) : List (String × List String) → List (String × List String)
  | [] => [(isa, [id])]
  | (k, ids) :: rest => if k = isa then (k, ids ++ [id]) :: rest else (k, ids) :: indexInsert isa id rest

end Xcode
end ModuleLink
