import Mathlib
import ModuleLink.Proofs.Xcode.Undo

/-!
Values that are put under a build setting and taken out again.  A setting that was a list comes back; one that was not
there or was a scalar stays behind as a list.
-/

namespace ModuleLink

namespace Plist

/-! ## A key in its place -/

section

variable {α : Type} {key : String} {l : List (String × α)}

theorem Dict.assign_assign (key : String) (v w : α) (l : List (String × α)) :
    assign key w (assign key v l) = assign key w l := by
  induction l with
  | nil => simp [assign]
  | cons e l ih =>
    obtain ⟨k, u⟩ := e
    rw [assign]
    split
    next hk => simp [assign, hk]
    next hk => rw [assign, if_neg hk, ih, assign, if_neg hk]

theorem Dict.lookup_placeSorted_self (h : l.lookup key = none) (v : α) : (placeSorted key v l).lookup key = some v := by
  induction l with
  | nil => exact Entries.lookup_cons_self key v []
  | cons e l ih =>
    obtain ⟨k, u⟩ := e
    have hne : key ≠ k := fun heq => by simp [heq] at h
    rw [placeSorted]
    split
    · exact Entries.lookup_cons_self key v _
    · rw [Entries.lookup_cons_of_ne hne] at h ⊢
      exact ih h

/-- The place of a new key does not depend on its value. -/
theorem Dict.assign_placeSorted (h : l.lookup key = none) (v w : α) :
    assign key w (placeSorted key v l) = placeSorted key w l := by
  induction l with
  | nil => simp [placeSorted, assign]
  | cons e l ih =>
    obtain ⟨k, u⟩ := e
    have hne : key ≠ k := fun heq => by simp [heq] at h
    rw [Entries.lookup_cons_of_ne hne] at h
    rw [placeSorted, placeSorted]
    split
    · rw [assign, if_pos rfl]
    · rw [assign, if_neg (Ne.symm hne), ih h]

theorem Dict.get?_setSorted_self (d : Dict α) (key : String) (v : α) : (d.setSorted key v).get? key = some v := by
  rw [setSorted]
  split
  · exact lookup_assign_self key v d.entries
  next hnone => exact lookup_placeSorted_self (Option.not_isSome_iff_eq_none.mp hnone) v

theorem Dict.set_setSorted (d : Dict α) (key : String) (v w : α) :
    (d.setSorted key v).set key w = d.setSorted key w := by
  rw [setSorted, setSorted]
  split
  · rw [set, set, set, assign_assign]
  next hnone => rw [set, assign_placeSorted (Option.not_isSome_iff_eq_none.mp hnone)]

theorem Dict.setSorted_of_get? {d : Dict α} {u : α} (h : d.get? key = some u) (v : α) :
    d.setSorted key v = d.set key v := by
  rw [setSorted, if_pos (by rw [h]; rfl)]

end

theorem Value.isText_text (s text : String) : (Value.text s).isText text = (s == text) :=
  congrArg (· == text) (Scalar.value_of s none)

end Plist

namespace Xcode

open Plist

variable {g : Graph} {o : Object} {settings changed : Dict Value} {name value inherited : String}

/-! ## One dictionary of settings -/

/-- The list that a value leaves under a setting when it has been put there and taken out again. -/
def leftover (value inherited : String) : Option Value → List Value
  | none => if inherited = value then [] else [.text inherited]
  | some (.scalar s) => [.scalar s]
  | some (.list items) => items
  | some (.dict _) => []

/-- The settings after a value was put under a name and taken out again. -/
def settingsBack (settings : Dict Value) (name value inherited : String) : Dict Value :=
  settings.setSorted name (.list (leftover value inherited (settings.get? name)))

/-- Every added value is in a list and is found there, in whatever shape the setting was. -/
theorem settingsRemoving_of_settingsAdding (hchanged : Graph.settingsAdding settings name value inherited = some changed) :
    Graph.settingsRemoving changed name value = some (settingsBack settings name value inherited) := by
  have hremove (before : List Value) (h : changed = settings.setSorted name (.list (before ++ [.text value])))
      (hback : before.filter (fun v => !v.isText value) = leftover value inherited (settings.get? name)) :
      Graph.settingsRemoving changed name value = some (settingsBack settings name value inherited) := by
    have hlist : changed.get? name = some (.list (before ++ [.text value])) := by rw [h, Dict.get?_setSorted_self]
    have hlast : (Value.text value).isText value = true := by rw [Value.isText_text, beq_self_eq_true]
    rw [settingsRemoving_of_list hlist, if_pos (by simp [hlast]), settingsBack, h, Dict.set_setSorted, ← hback]
    simp [hlast]
  rw [Graph.settingsAdding] at hchanged
  split at hchanged
  next hnone =>
    refine hremove [.text inherited] (Option.some.inj hchanged).symm ?_
    rw [hnone, leftover, List.filter_singleton, Value.isText_text]
    by_cases heq : inherited = value
    · rw [if_pos heq, heq, beq_self_eq_true]
      rfl
    · rw [if_neg heq, beq_eq_false_iff_ne.mpr heq]
      rfl
  next s hscalar =>
    split at hchanged
    · contradiction
    next hne =>
      refine hremove [.scalar s] ?_ ?_
      · rw [Dict.setSorted_of_get? hscalar]
        exact (Option.some.inj hchanged).symm
      · rw [hscalar, leftover, List.filter_singleton]
        have hother : (Value.scalar s).isText value = false := beq_eq_false_iff_ne.mpr hne
        simp [hother]
  next items hlist =>
    split at hchanged
    · contradiction
    next hfree =>
      refine hremove items ?_ ?_
      · rw [Dict.setSorted_of_get? hlist]
        exact (Option.some.inj hchanged).symm
      · rw [hlist, leftover]
        refine List.filter_eq_self.mpr fun v hv => ?_
        rw [Bool.eq_false_iff.mpr (List.any_eq_false.mp (Bool.eq_false_iff.mpr hfree) v hv)]
        rfl
  next => contradiction

/-- A list is what comes back. -/
theorem settingsBack_eq_self_iff (settings : Dict Value) (name value inherited : String) :
    settingsBack settings name value inherited = settings ↔ ∃ items, settings.get? name = some (.list items) := by
  constructor
  · intro h
    exact ⟨_, by rw [← h]; exact Dict.get?_setSorted_self settings name _⟩
  · rintro ⟨items, hlist⟩
    rw [settingsBack, hlist, leftover, Dict.setSorted_of_get? hlist, Dict.set_of_get? hlist]

/-! ## The settings of a configuration -/

theorem exists_changeSettings {configuration : String} {change : Dict Value → Option (Dict Value)}
    (hget : g.get? configuration = some o) (hsettings : o.field? "buildSettings" = some (.dict settings))
    (hchange : change settings = some changed) :
    ∃ g', g.changeSettings configuration change = (g', true) ∧ ∀ id, g'.get? id =
      if id = configuration then some (o.setField "buildSettings" (.dict changed)) else g.get? id := by
  refine ⟨(g.changeSettings configuration change).1, Prod.ext rfl ?_, get?_changeSettings hget hsettings hchange⟩
  rw [Graph.changeSettings, hget]
  simp only
  rw [hsettings]
  simp only
  rw [hchange]

/-- A change of settings does nothing, or finds settings that it changes. -/
theorem changeSettings_cases (g : Graph) (configuration : String) (change : Dict Value → Option (Dict Value)) :
    g.changeSettings configuration change = (g, false) ∨
    ∃ o settings changed, g.get? configuration = some o ∧ o.field? "buildSettings" = some (.dict settings) ∧
      change settings = some changed := by
  rcases g.changeSettings_eq_or_store configuration change with
    hsame | ⟨o, settings, changed, rfl, hget, hsettings, hchange, -⟩
  · exact .inl hsame
  · exact .inr ⟨o, settings, changed, hget, hsettings, hchange⟩

theorem Object.setField_setField (o : Object) (key : String) (v w : Value) :
    (o.setField key v).setField key w = o.setField key w := by
  rw [setField, setField, setField, Dict.set, Dict.set, Dict.set, Dict.assign_assign]

theorem Object.setField_eq_self_iff {key : String} {v : Value} (h : o.field? key = some v) (w : Value) :
    o.setField key w = o ↔ w = v := by
  constructor
  · intro hsame
    have hfield : (o.setField key w).field? key = some w := field?_setField_self w
    rw [hsame, h] at hfield
    exact (Option.some.inj hfield).symm
  · rintro rfl
    exact setField_of_field? h

/-- A value that is put under a setting of a configuration can always be taken out again.  Then everything is as it was
exactly if the setting was a list; what was no setting or a scalar is left as a list, in the place where it was put. -/
theorem removeSetting_addSetting (g : Graph) (configuration name value inherited : String) :
    g.addSetting configuration name value inherited = (g, false) ∨
    ∃ added back o settings, g.addSetting configuration name value inherited = (added, true) ∧
      added.removeSetting configuration name value = (back, true) ∧
      g.get? configuration = some o ∧ o.settings? = some settings ∧
      (∀ id, back.get? id = if id = configuration then
        some (o.setField "buildSettings" (.dict (settingsBack settings name value inherited))) else g.get? id) ∧
      ((∀ id, back.get? id = g.get? id) ↔ ∃ items, settings.get? name = some (.list items)) := by
  rcases changeSettings_cases g configuration (Graph.settingsAdding · name value inherited) with
    hrefused | ⟨o, settings, changed, hget, hsettings, hchange⟩
  · exact .inl hrefused
  -- Both changes are changes of the same field, so the second is as good as made on the object before the first.
  obtain ⟨added, hadd, hadded⟩ : ∃ added, g.addSetting configuration name value inherited = (added, true) ∧
      ∀ id, added.get? id = if id = configuration then some (o.setField "buildSettings" (.dict changed)) else g.get? id :=
    exists_changeSettings hget hsettings hchange
  have hget' : added.get? configuration = some (o.setField "buildSettings" (.dict changed)) := by rw [hadded, if_pos rfl]
  obtain ⟨back, hremove, hback⟩ : ∃ back, added.removeSetting configuration name value = (back, true) ∧
      ∀ id, back.get? id = if id = configuration then some ((o.setField "buildSettings" (.dict changed)).setField
        "buildSettings" (.dict (settingsBack settings name value inherited))) else added.get? id :=
    exists_changeSettings hget' (Object.field?_setField_self _) (settingsRemoving_of_settingsAdding hchange)
  have hleft (id : String) : back.get? id = if id = configuration then
      some (o.setField "buildSettings" (.dict (settingsBack settings name value inherited))) else g.get? id := by
    rw [hback, Object.setField_setField, hadded]
    split <;> rfl
  refine .inr ⟨added, back, o, settings, hadd, hremove, hget, Object.settings?_eq_some.mpr hsettings, hleft, ?_⟩
  rw [← settingsBack_eq_self_iff settings name value inherited]
  have hobject : o.setField "buildSettings" (.dict (settingsBack settings name value inherited)) = o ↔
      settingsBack settings name value inherited = settings := by
    rw [Object.setField_eq_self_iff hsettings, Value.dict.injEq]
  rw [← hobject]
  constructor
  · intro hsame
    have hthere := hsame configuration
    rw [hleft, if_pos rfl, hget] at hthere
    exact Option.some.inj hthere
  · intro hsame id
    rw [hleft, hsame]
    split
    next hid => rw [hid, hget]
    · rfl

/-- A project with a configuration that sets one scalar. -/
def scalarSetting : List Char :=
  "\x7b\n\tobjects = \x7b\n\t\tC1 = \x7b\n\t\t\tisa = XCBuildConfiguration;\n\t\t\tbuildSettings = \x7b\n".toList ++
  "\t\t\t\tPRODUCT_NAME = App;\n\t\t\t\x7d;\n\t\t\x7d;\n\t\x7d;\n\trootObject = C1;\n\x7d\n".toList

def settingNames (g : Graph) (configuration : String) : List String :=
  (((g.get? configuration).bind Object.settings?).map Dict.keys).getD []

/-- A value under a new setting goes, and what it was put behind stays. -/
theorem removeSetting_addSetting_scalarSetting :
    ∃ g, Graph.load "project" scalarSetting = .ok g ∧ settingNames g "C1" = ["PRODUCT_NAME"] ∧
      ∃ added back, g.addSetting "C1" "HEADER_SEARCH_PATHS" "a" Graph.inheritedValue = (added, true) ∧
        added.removeSetting "C1" "HEADER_SEARCH_PATHS" "a" = (back, true) ∧
        settingNames back "C1" = ["HEADER_SEARCH_PATHS", "PRODUCT_NAME"] := by
  have hrun : ((Graph.load "project" scalarSetting).toOption.any fun g =>
      settingNames g "C1" = ["PRODUCT_NAME"] ∧
      (g.addSetting "C1" "HEADER_SEARCH_PATHS" "a" Graph.inheritedValue).2 = true ∧
      ((g.addSetting "C1" "HEADER_SEARCH_PATHS" "a" Graph.inheritedValue).1.removeSetting
        "C1" "HEADER_SEARCH_PATHS" "a").2 = true ∧
      settingNames ((g.addSetting "C1" "HEADER_SEARCH_PATHS" "a" Graph.inheritedValue).1.removeSetting
        "C1" "HEADER_SEARCH_PATHS" "a").1 "C1" = ["HEADER_SEARCH_PATHS", "PRODUCT_NAME"]) = true := by
    decide +kernel
  cases hload : Graph.load "project" scalarSetting with
  | error =>
    rw [hload] at hrun
    contradiction
  | ok g =>
    rw [hload] at hrun
    obtain ⟨hbefore, hadd, hremove, hafter⟩ := of_decide_eq_true hrun
    exact ⟨g, rfl, hbefore, _, _, Prod.ext rfl hadd, Prod.ext rfl hremove, hafter⟩

end Xcode
end ModuleLink
