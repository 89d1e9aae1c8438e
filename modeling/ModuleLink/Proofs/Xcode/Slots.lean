import Mathlib
import ModuleLink.Proofs.Xcode.Groups

/-!
The lists of an object that things are added to, its list fields and its list-valued build settings, and the object seen
without some of their items.
-/

namespace ModuleLink

namespace Plist

/-! ## Dictionaries -/

def Value.asList? : Value → Option (List Value)
  | .list items => some items
  | _ => none

theorem Value.asList?_eq_some {v : Value} {items : List Value} : v.asList? = some items ↔ v = .list items := by
  cases v <;> simp [Value.asList?]

theorem Value.asDict?_eq_some {v : Value} {d : Dict Value} : v.asDict? = some d ↔ v = .dict d := by
  cases v <;> simp [Value.asDict?]

/-- A list without some of its items. -/
def Value.without (hides : Value → Bool) : Value → Value
  | .list items => .list (items.filter fun x => !hides x)
  | .scalar s => .scalar s
  | .dict d => .dict d

/-- The dictionary with other values. -/
def Dict.mapValues (f : String → Value → Value) (d : Dict Value) : Dict Value :=
  { d with entries := d.entries.map fun e => (e.1, f e.1 e.2) }

section

variable {d : Dict Value} {f : String → Value → Value} {key k : String} {v w : Value} {hides : Value → Bool}

theorem Dict.get?_mapValues (f : String → Value → Value) (d : Dict Value) (k : String) :
    (d.mapValues f).get? k = (d.get? k).map (f k) := by
  rw [Dict.get?, Dict.get?, Dict.mapValues]
  simp only
  generalize d.entries = es
  induction es with
  | nil => rfl
  | cons e es ih =>
    obtain ⟨l, v⟩ := e
    rw [List.map_cons]
    by_cases hk : k = l
    · rw [hk, Entries.lookup_cons_self, Entries.lookup_cons_self]
      rfl
    · rw [Entries.lookup_cons_of_ne hk, Entries.lookup_cons_of_ne hk, ih]

theorem Dict.assign_of_lookup {l : List (String × Value)} (h : l.lookup key = some v) : Dict.assign key v l = l := by
  induction l with
  | nil => contradiction
  | cons e l ih =>
    obtain ⟨k, w⟩ := e
    rw [Dict.assign]
    by_cases hk : key = k
    · subst hk
      rw [Entries.lookup_cons_self] at h
      rw [if_pos rfl, Option.some.inj h]
    · rw [Entries.lookup_cons_of_ne hk] at h
      rw [if_neg (Ne.symm hk), ih h]

/-- A key that is given the value that it has keeps the dictionary as it is. -/
theorem Dict.set_of_get? (h : d.get? key = some v) : d.set key v = d := by
  rw [Dict.set, Dict.assign_of_lookup h]

/-- A key that is given a value that looks the same. -/
theorem Dict.mapValues_set (h : d.get? key = some v) (hf : f key w = f key v) :
    (d.set key w).mapValues f = d.mapValues f := by
  have hsame : (Dict.assign key w d.entries).map (fun e => (e.1, f e.1 e.2)) =
      d.entries.map fun e => (e.1, f e.1 e.2) := by
    have hlookup : (d.entries.map fun e => (e.1, f e.1 e.2)).lookup key = some (f key v) := by
      have hget := Dict.get?_mapValues f d key
      rw [h] at hget
      exact hget
    rw [Dict.map_assign, hf, Dict.assign_of_lookup hlookup]
  rw [Dict.mapValues, Dict.mapValues, Dict.set]
  simp only [hsame]

theorem Dict.tidy_mapValues (hf : ∀ k v, f k v.tidy = (f k v).tidy) : (d.mapValues f).tidy = d.tidy.mapValues f := by
  rw [Dict.tidy, Dict.tidy, Dict.mapValues, Dict.mapValues, List.map_map, List.map_map, List.map_map]
  congr 1
  exact List.map_congr_left fun e _ => by simp only [Function.comp_apply, hf]

theorem Value.isText_tidy (x : Value) (s : String) : x.tidy.isText s = x.isText s := by
  cases x with
  | scalar => rw [Value.tidy_scalar]
  | list => rw [Value.tidy_list]; rfl
  | dict => rw [Value.tidy_dict]; rfl

theorem Value.without_tidy (hhides : ∀ x : Value, hides x.tidy = hides x) (v : Value) :
    v.tidy.without hides = (v.without hides).tidy := by
  cases v with
  | scalar => rw [Value.tidy_scalar, Value.without, Value.tidy_scalar]
  | dict => rw [Value.tidy_dict, Value.without, Value.without, Value.tidy_dict]
  | list items =>
    rw [Value.tidy_list, Value.without, Value.without, Value.tidy_list, List.filter_map]
    congr 3
    exact funext fun x => by rw [Function.comp_apply, hhides]

theorem Dict.mapValues_eq_self (hnodup : (d.entries.map (·.1)).Nodup) (h : ∀ k v, d.get? k = some v → f k v = v) :
    d.mapValues f = d := by
  have hentries : d.entries.map (fun e => (e.1, f e.1 e.2)) = d.entries := by
    refine (List.map_congr_left fun e he => ?_).trans (List.map_id' _)
    exact Prod.ext rfl (h e.1 e.2 (Dict.lookup_of_mem hnodup he))
  rw [Dict.mapValues, hentries]

end

end Plist

namespace Xcode

open Plist

/-! ## Slots -/

/-- A list of an object: a field, or a build setting. -/
inductive Slot where
  | field (key : String)
  | setting (name : String)
  deriving DecidableEq

namespace Object

variable {o : Object} {s s' : Slot} {items items' : List Value} {hides : Slot → Value → Bool}

def settings? (o : Object) : Option (Dict Value) := (o.field? "buildSettings").bind Value.asDict?

/-- The items of a list. -/
def slot? (o : Object) : Slot → Option (List Value)
  | .field key => (o.field? key).bind Value.asList?
  | .setting name => (o.settings?.bind fun settings => settings.get? name).bind Value.asList?

/-- The object with other items in a list that it has. -/
def setSlot (o : Object) (items : List Value) : Slot → Object
  | .field key => o.setField key (.list items)
  | .setting name =>
    match o.settings? with
    | some settings => o.setField "buildSettings" (.dict (settings.set name (.list items)))
    | none => o

theorem settings?_eq_some {settings : Dict Value} :
    o.settings? = some settings ↔ o.field? "buildSettings" = some (.dict settings) := by
  rw [settings?, Option.bind_eq_some_iff]
  constructor
  · rintro ⟨v, hv, hdict⟩
    rw [hv, Value.asDict?_eq_some.mp hdict]
  · exact fun h => ⟨_, h, rfl⟩

theorem slot?_field {key : String} : o.slot? (.field key) = some items ↔ o.field? key = some (.list items) := by
  rw [slot?, Option.bind_eq_some_iff]
  constructor
  · rintro ⟨v, hv, hlist⟩
    rw [hv, Value.asList?_eq_some.mp hlist]
  · exact fun h => ⟨_, h, rfl⟩

theorem slot?_setting {name : String} : o.slot? (.setting name) = some items ↔
    ∃ settings, o.field? "buildSettings" = some (.dict settings) ∧ settings.get? name = some (.list items) := by
  rw [slot?, Option.bind_eq_some_iff]
  constructor
  · rintro ⟨v, hv, hlist⟩
    obtain ⟨settings, hsettings, hget⟩ := Option.bind_eq_some_iff.mp hv
    exact ⟨settings, settings?_eq_some.mp hsettings, by rw [hget, Value.asList?_eq_some.mp hlist]⟩
  · rintro ⟨settings, hsettings, hget⟩
    exact ⟨.list items, by rw [settings?_eq_some.mpr hsettings]; exact hget, rfl⟩

theorem setSlot_setting {settings : Dict Value} {name : String} (h : o.field? "buildSettings" = some (.dict settings))
    (items : List Value) :
    o.setSlot items (.setting name) = o.setField "buildSettings" (.dict (settings.set name (.list items))) := by
  rw [setSlot, settings?_eq_some.mpr h]

theorem id_setSlot (o : Object) (items : List Value) (s : Slot) : (o.setSlot items s).id = o.id := by
  cases s with
  | field key => rfl
  | setting name =>
    rw [setSlot]
    split <;> rfl

theorem setField_of_field? {key : String} {v : Value} (h : o.field? key = some v) : o.setField key v = o := by
  rw [setField, Dict.set_of_get? h]

theorem setSlot_self (h : o.slot? s = some items) : o.setSlot items s = o := by
  cases s with
  | field key => exact setField_of_field? (slot?_field.mp h)
  | setting name =>
    obtain ⟨settings, hsettings, hget⟩ := slot?_setting.mp h
    rw [setSlot_setting hsettings, Dict.set_of_get? hget]
    exact setField_of_field? hsettings

theorem slot?_setSlot_self (h : o.slot? s = some items) (items' : List Value) :
    (o.setSlot items' s).slot? s = some items' := by
  cases s with
  | field key => exact slot?_field.mpr (field?_setField_self _)
  | setting name =>
    obtain ⟨settings, hsettings, hget⟩ := slot?_setting.mp h
    rw [setSlot_setting hsettings]
    exact slot?_setting.mpr ⟨_, field?_setField_self _, Dict.lookup_assign_self _ _ _⟩

/-- The other lists stay. -/
theorem slot?_setSlot_of_ne (h : o.slot? s = some items) (hne : s' ≠ s) (items' : List Value) :
    (o.setSlot items' s).slot? s' = o.slot? s' := by
  cases s with
  | field key =>
    have hfield := slot?_field.mp h
    cases s' with
    | field key' =>
      rw [slot?, slot?, setSlot, field?_setField_of_ne fun heq => hne (congrArg _ heq)]
    | setting name =>
      rw [slot?, slot?, settings?, settings?, setSlot]
      by_cases hkey : "buildSettings" = key
      · subst hkey
        rw [field?_setField_self, hfield]
        rfl
      · rw [field?_setField_of_ne hkey]
  | setting name =>
    obtain ⟨settings, hsettings, hget⟩ := slot?_setting.mp h
    rw [setSlot_setting hsettings]
    cases s' with
    | field key =>
      rw [slot?, slot?]
      by_cases hkey : key = "buildSettings"
      · subst hkey
        rw [field?_setField_self, hsettings]
        rfl
      · rw [field?_setField_of_ne hkey]
    | setting name' =>
      rw [slot?, slot?, settings?, settings?, field?_setField_self, hsettings]
      simp only [Option.bind_some, Value.asDict?]
      rw [show (settings.set name (.list items')).get? name' = settings.get? name' from
        Dict.lookup_assign_of_ne (fun heq => hne (congrArg _ heq)) _ _]

/-! ## Hidden items -/

/-- A field without the items that are hidden. -/
def hiddenField (hides : Slot → Value → Bool) (key : String) : Value → Value
  | .scalar s => .scalar s
  | .list items => (Value.list items).without (hides (.field key))
  | .dict d =>
    if key = "buildSettings" then .dict (d.mapValues fun name v => v.without (hides (.setting name))) else .dict d

/-- The object without the items that are hidden. -/
def hidden (hides : Slot → Value → Bool) (o : Object) : Object :=
  { o with fields := o.fields.mapValues (hiddenField hides) }

theorem hidden_setField {key : String} {v w : Value} (h : o.field? key = some v)
    (hsame : hiddenField hides key w = hiddenField hides key v) : (o.setField key w).hidden hides = o.hidden hides := by
  rw [hidden, hidden, setField]
  simp only [Dict.mapValues_set h hsame]

/-- What is hidden can come and go. -/
theorem hidden_setSlot (h : o.slot? s = some items)
    (hsame : (items'.filter fun x => !hides s x) = items.filter fun x => !hides s x) :
    (o.setSlot items' s).hidden hides = o.hidden hides := by
  cases s with
  | field key => exact hidden_setField (slot?_field.mp h) (congrArg Value.list hsame)
  | setting name =>
    obtain ⟨settings, hsettings, hget⟩ := slot?_setting.mp h
    rw [setSlot_setting hsettings]
    refine hidden_setField hsettings ?_
    rw [hiddenField, hiddenField, if_pos rfl, if_pos rfl, Dict.mapValues_set hget (congrArg Value.list hsame)]

theorem slot?_hidden (h : (o.hidden hides).slot? s = some items') :
    ∃ items, o.slot? s = some items ∧ items' = items.filter fun x => !hides s x := by
  have hfield (key : String) : (o.hidden hides).field? key = (o.field? key).map (hiddenField hides key) :=
    Dict.get?_mapValues _ _ _
  cases s with
  | field key =>
    have hlist := slot?_field.mp h
    rw [hfield] at hlist
    obtain ⟨v, hv, hhidden⟩ := Option.map_eq_some_iff.mp hlist
    cases v with
    | scalar => contradiction
    | list items => exact ⟨items, slot?_field.mpr hv, (Value.list.inj hhidden).symm⟩
    | dict d =>
      rw [hiddenField] at hhidden
      split at hhidden <;> contradiction
  | setting name =>
    obtain ⟨settings, hsettings, hget⟩ := slot?_setting.mp h
    rw [hfield] at hsettings
    obtain ⟨v, hv, hhidden⟩ := Option.map_eq_some_iff.mp hsettings
    cases v with
    | scalar => contradiction
    | list => contradiction
    | dict d =>
      rw [hiddenField, if_pos rfl] at hhidden
      obtain rfl := Value.dict.inj hhidden
      rw [Dict.get?_mapValues] at hget
      obtain ⟨w, hw, hwithout⟩ := Option.map_eq_some_iff.mp hget
      cases w with
      | scalar => contradiction
      | dict => contradiction
      | list items => exact ⟨items, slot?_setting.mpr ⟨d, hv, hw⟩, (Value.list.inj hwithout).symm⟩

/-- Where nothing is hidden, the object is seen as it is. -/
theorem hidden_eq_self (ho : o.IsProper) (h : ∀ s items, o.slot? s = some items → ∀ x ∈ items, hides s x = false) :
    o.hidden hides = o := by
  have hkeep {s : Slot} {items : List Value} (hslot : o.slot? s = some items) :
      (items.filter fun x => !hides s x) = items :=
    List.filter_eq_self.mpr fun x hx => by rw [h s items hslot x hx]; rfl
  have hfields : o.fields.mapValues (hiddenField hides) = o.fields := by
    refine Dict.mapValues_eq_self ho.fields.nodup fun key v hv => ?_
    cases v with
    | scalar => rfl
    | list items => exact congrArg Value.list (hkeep (slot?_field.mpr hv))
    | dict d =>
      rw [hiddenField]
      split
      next hkey =>
        subst hkey
        refine congrArg Value.dict (Dict.mapValues_eq_self (ho.fields.get? hv).nodup fun name w hw => ?_)
        cases w with
        | scalar => rfl
        | dict => rfl
        | list items => exact congrArg Value.list (hkeep (slot?_setting.mpr ⟨d, hv, hw⟩))
      · rfl
  rw [hidden, hfields]

/-! ## Tidy objects -/

theorem hiddenField_tidy (hides_tidy : ∀ s x, hides s x.tidy = hides s x) (key : String) (v : Value) :
    hiddenField hides key v.tidy = (hiddenField hides key v).tidy := by
  cases v with
  | scalar s => rw [Value.tidy_scalar, hiddenField, Value.tidy_scalar]
  | list items => rw [Value.tidy_list, hiddenField, hiddenField, ← Value.tidy_list, Value.without_tidy (hides_tidy _)]
  | dict d =>
    rw [Value.tidy_dict, hiddenField, hiddenField]
    split
    · rw [Value.tidy_dict, Dict.tidy_mapValues (f := fun name v => v.without (hides (.setting name)))
        fun name v => Value.without_tidy (hides_tidy _) v]
    · rw [Value.tidy_dict]

/-- Tidying an object and hiding items of it go together. -/
theorem hidden_tidy (hides_tidy : ∀ s x, hides s x.tidy = hides s x) (o : Object) :
    o.tidy.hidden hides = (o.hidden hides).tidy := by
  rw [hidden, tidy, hidden, tidy, Dict.tidy_mapValues fun key v => hiddenField_tidy hides_tidy key v]

theorem field?_tidy (o : Object) (key : String) : o.tidy.field? key = (o.field? key).map Value.tidy :=
  Dict.get?_tidy o.fields key

theorem slot?_tidy (o : Object) (s : Slot) : o.tidy.slot? s = (o.slot? s).map (List.map Value.tidy) := by
  have hlist (v : Option Value) :
      (v.map Value.tidy).bind Value.asList? = (v.bind Value.asList?).map (List.map Value.tidy) := by
    rcases v with _ | ⟨s | items | d⟩
    · rfl
    · rw [Option.map_some, Value.tidy_scalar]; rfl
    · rw [Option.map_some, Value.tidy_list]; rfl
    · rw [Option.map_some, Value.tidy_dict]; rfl
  cases s with
  | field key => rw [slot?, slot?, field?_tidy, hlist]
  | setting name =>
    have hsettings : o.tidy.settings? = o.settings?.map Dict.tidy := by
      rw [settings?, settings?, field?_tidy]
      rcases o.field? "buildSettings" with _ | ⟨s | items | d⟩
      · rfl
      · rw [Option.map_some, Value.tidy_scalar]; rfl
      · rw [Option.map_some, Value.tidy_list]; rfl
      · rw [Option.map_some, Value.tidy_dict]; rfl
    rw [slot?, slot?, hsettings, ← hlist, Option.bind_map, Option.map_bind]
    rcases o.settings? with _ | settings
    · rfl
    · exact congrArg (Option.bind · Value.asList?) (Dict.get?_tidy settings name)

end Object

end Xcode
end ModuleLink
