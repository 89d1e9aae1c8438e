import ModuleLink.Digest
import ModuleLink.Plist.Draft
import ModuleLink.Xcode.Query

/-!
Changes to a project graph.
-/

namespace ModuleLink
namespace Xcode

open Plist

/-- An id longer than all the given ones. -/
def spareId (ids : List String) : String :=
  String.ofList (List.replicate (ids.foldr (fun id n => id.length + n) 0 + 1) '0')

/-- The id derived from the seed, or from the seed with as many plus signs as it takes to find one that is free.  There
is one among the first seeds as soon as these have more digests than there are ids; `spare` is for seeds that have
not, on which the search would go on. -/
def freshId (taken : String → Bool) (spare : String) : (tries : Nat) → (seed : String) → String
  | 0, _ => spare
  | n + 1, seed =>
    let id := Digest.stableId seed
    if taken id then freshId taken spare n (seed ++ "+") else id

namespace Object

/-- A scalar of the list field stands for `ref`. -/
def hasRef (o : Object) (key ref : String) : Bool := (o.refs key).contains ref

def listField (o : Object) (key : String) : List Value :=
  match o.field? key with
  | some (.list items) => items
  | _ => []

def appendRef (o : Object) (key : String) (s : Scalar) : Object :=
  o.setField key (.list (o.listField key ++ [.scalar s]))

def removeRef (o : Object) (key ref : String) : Object :=
  if o.hasRef key ref then o.setField key (.list ((o.listField key).filter fun v => !v.isText ref)) else o

end Object

namespace Graph

def newId (g : Graph) (seed : String) : String :=
  freshId g.contains (spareId g.ids) (g.objects.length + 1) seed

def touch (g : Graph) (id : String) : Graph :=
  if g.touched.contains id then g else { g with touched := g.touched ++ [id] }

/-! ## Objects -/

/-- A new object at the end of the table.  Its fields follow its kind in ascending order. -/
def addObject (g : Graph) (isa : String) (fields : List (String × Draft)) (comment : Option String) (seed : String) :
    Except Fault (Graph × Object) := do
  let unique := fields.foldl (fun done f => Dict.assign f.1 f.2 done) []
  let values ← (unique.mergeSort fun a b => decide (a.1 ≤ b.1)).mapM fun (key, d) => do
    let v ← d.value
    .ok (key, v)
  let bag := values.foldl (fun (d : Dict Value) f => d.set f.1 f.2) ⟨[("isa", .scalar ⟨isa, none⟩)], []⟩
  let o : Object := ⟨g.newId seed, bag, comment⟩
  .ok ({ g with
    objects := g.objects ++ [o]
    index := indexInsert isa o.id g.index
    added := g.added ++ [o.id] }, o)

/-- Takes an object out of the table and says whether it was there. -/
def removeObject (g : Graph) (id : String) : Graph × Except Fault Bool :=
  match g.get? id with
  | none => (g, .ok false)
  | some o =>
    let g := { g with objects := g.objects.filter fun p => p.id != id }
    if ((g.index.lookup o.isa).getD []).contains id then
      ({ g with
        index := g.index.map fun (k, ids) => if k = o.isa then (k, ids.erase id) else (k, ids)
        removed := if g.removed.contains id then g.removed else g.removed ++ [id] }, .ok true)
    else (g, .error .notIndexed)

/-! ## References -/

/-- Puts a reference at the end of a list field unless it is there.  A field of another shape becomes a list. -/
def appendRef (g : Graph) (owner key ref : String) (comment : Option String) : Graph × Bool :=
  match g.get? owner with
  | none => (g, false)
  | some o =>
    if o.hasRef key ref then (g, false)
    else ((g.store (o.appendRef key ⟨ref, comment⟩)).touch owner, true)

def removeRef (g : Graph) (owner key ref : String) : Graph × Bool :=
  match g.get? owner with
  | none => (g, false)
  | some o => if o.hasRef key ref then ((g.store (o.removeRef key ref)).touch owner, true) else (g, false)

/-! ## Build settings -/

/-- The settings with a value added to the list under a name, if that changes them. -/
def settingsAdding (settings : Dict Value) (name value inherited : String) : Option (Dict Value) :=
  match settings.get? name with
  | none => some (settings.setSorted name (.list [.text inherited, .text value]))
  | some (.scalar s) =>
    if s.value = value then none else some (settings.set name (.list [.scalar s, .text value]))
  | some (.list items) =>
    if items.any (·.isText value) then none else some (settings.set name (.list (items ++ [.text value])))
  | some (.dict _) => none

/-- The settings with a value taken out from under a name, if that changes them. -/
def settingsRemoving (settings : Dict Value) (name value : String) : Option (Dict Value) :=
  match settings.get? name with
  | some (.scalar s) => if s.value = value then some (settings.erase name) else none
  | some (.list items) =>
    if items.any (·.isText value) then some (settings.set name (.list (items.filter fun v => !v.isText value)))
    else none
  | _ => none

/-- Applies a change to the settings of a configuration that has some. -/
def changeSettings (g : Graph) (configuration : String) (change : Dict Value → Option (Dict Value)) : Graph × Bool :=
  match g.get? configuration with
  | none => (g, false)
  | some o =>
    match o.field? "buildSettings" with
    | some (.dict settings) =>
      match change settings with
      | some changed => ((g.store (o.setField "buildSettings" (.dict changed))).touch configuration, true)
      | none => (g, false)
    | _ => (g, false)

/-- What a list of settings made from nothing starts with. -/
def inheritedValue : String := "$(inherited)"

def addSetting (g : Graph) (configuration name value inherited : String) : Graph × Bool :=
  g.changeSettings configuration fun settings => settingsAdding settings name value inherited

def removeSetting (g : Graph) (configuration name value : String) : Graph × Bool :=
  g.changeSettings configuration fun settings => settingsRemoving settings name value

end Graph
end Xcode
end ModuleLink
