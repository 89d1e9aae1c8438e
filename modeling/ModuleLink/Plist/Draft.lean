import ModuleLink.Plist.Value
import ModuleLink.Fault

/-!
Plain data on its way into a property list.
-/

namespace ModuleLink
namespace Plist

/-- Data offered as a value: texts are quoted where they have to be, written scalars are taken as they are. -/
inductive Draft where
  | text (s : String)
  | written (s : Scalar)
  | list (items : List Draft)
  | dict (entries : List (String × Draft))
  /-- Data that no property list can hold, as it is shown. -/
  | other (shown : String)

instance : Inhabited Draft := ⟨.other ""⟩

namespace Draft

mutual

def value : Draft → Except Fault Value
  | .text s => .ok (.text s)
  | .written s => .ok (.scalar s)
  | .list items => do
    let vs ← values items
    .ok (.list vs)
  | .dict entries => do
    let es ← entryValues entries
    .ok (.dict (Dict.ofEntries es))
  | .other shown => .error (.unsupportedValue shown)

def values : List Draft → Except Fault (List Value)
  | [] => .ok []
  | d :: rest => do
    let v ← value d
    let vs ← values rest
    .ok (v :: vs)

def entryValues : List (String × Draft) → Except Fault (List (String × Value))
  | [] => .ok []
  | (key, d) :: rest => do
    let v ← value d
    let es ← entryValues rest
    .ok ((key, v) :: es)

end

end Draft
end Plist
end ModuleLink
