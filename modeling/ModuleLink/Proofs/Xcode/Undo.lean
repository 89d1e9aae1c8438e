import Mathlib
import ModuleLink.Proofs.Xcode.Slots

/-!
Additions to a graph, and the changes that take them back.  Seen without what is added, an object is the same before an
addition and after it, and before and after it is taken back; when everything was taken back, nothing is left to hide.
-/

namespace ModuleLink
namespace Xcode

open Plist

/-! ## Additions -/

/-- A text in a list of an object. -/
structure Target where
  owner : String
  slot : Slot
  text : String

/-- The kinds of the objects that are added. -/
def addedKinds : List String := ["PBXBuildFile", "PBXFileReference", "PBXGroup"]

namespace Change

/-- What the change puts into a list or takes out of it. -/
def target? : Change → Option Target
  | .appendRef owner key ref _ => some ⟨owner, .field key, ref⟩
  | .removeRef owner key ref => some ⟨owner, .field key, ref⟩
  | .addSetting configuration name value _ => some ⟨configuration, .setting name, value⟩
  | .removeSetting configuration name value => some ⟨configuration, .setting name, value⟩
  | _ => none

/-- If the change is about a list of the object, the list is there and does not hold the text. -/
def IsOpen (c : Change) (o : Object) : Prop :=
  ∀ t, c.target? = some t → t.owner = o.id → ∃ items, o.slot? t.slot = some items ∧ ∀ x ∈ items, x.isText t.text = false

/-- The change adds an object, or puts a text into a list that is there and does not hold it. -/
def Adds (c : Change) (g : Graph) : Prop :=
  match c with
  | .add isa _ _ _ => isa ∈ addedKinds
  | .appendRef owner _ _ _ => ∃ o, g.get? owner = some o ∧ c.IsOpen o
  | .addSetting configuration _ _ _ => ∃ o, g.get? configuration = some o ∧ c.IsOpen o
  | _ => False

/-- The change that takes back what a change adds to the graph. -/
def undo (g : Graph) : Change → Change
  | .add _ _ _ seed => .remove (g.newId seed)
  | .appendRef owner key ref _ => .removeRef owner key ref
  | .addSetting configuration name value _ => .removeSetting configuration name value
  | c => c

/-- The change takes an object out, or a text out of a list. -/
def Takes : Change → Prop
  | .remove _ | .removeRef .. | .removeSetting .. => True
  | _ => False

theorem target?_undo (g : Graph) (c : Change) : (c.undo g).target? = c.target? := by cases c <;> rfl

theorem IsOpen.congr {c d : Change} {o : Object} (h : c.IsOpen o) (hsame : d.target? = c.target?) : d.IsOpen o :=
  fun t ht => h t (hsame ▸ ht)

theorem IsOpen.tidy {c : Change} {o : Object} (h : c.IsOpen o) : c.IsOpen o.tidy := by
  intro t ht howner
  obtain ⟨items, hslot, hfree⟩ := h t ht howner
  refine ⟨items.map Value.tidy, by rw [Object.slot?_tidy, hslot]; rfl, fun x hx => ?_⟩
  obtain ⟨y, hy, rfl⟩ := List.mem_map.mp hx
  rw [Value.isText_tidy]
  exact hfree y hy

end Change

namespace Graph

/-- Each of the changes adds something to the graph that the ones before it have made. -/
def Gains (g : Graph) : List Change → Prop
  | [] => True
  | c :: changes => c.Adds g ∧ (c.apply g).Gains changes

/-- The changes that take back what changes add. -/
def undoing (g : Graph) : List Change → List Change
  | [] => []
  | c :: changes => c.undo g :: (c.apply g).undoing changes

theorem map_target?_undoing (g : Graph) (changes : List Change) :
    (g.undoing changes).map Change.target? = changes.map Change.target? := by
  induction changes generalizing g with
  | nil => rfl
  | cons c changes ih => rw [undoing, List.map_cons, List.map_cons, ih, Change.target?_undo]

theorem takes_undoing {g : Graph} {changes : List Change} (h : g.Gains changes) : ∀ c ∈ g.undoing changes, c.Takes := by
  induction changes generalizing g with
  | nil => simp [undoing]
  | cons c changes ih =>
    obtain ⟨hc, hrest⟩ := h
    refine List.forall_mem_cons.mpr ⟨?_, ih hrest⟩
    cases c with
    | add | appendRef | addSetting => exact trivial
    | remove | touch | removeRef | removeSetting => exact hc.elim

end Graph

variable {g : Graph} {o : Object} {id : String} {c : Change} {changes : List Change} {hides : Slot → Value → Bool}

/-! ## What becomes of an object -/

theorem contains_texts (items : List Value) (ref : String) :
    ((items.filterMap Value.asScalar?).map Scalar.value).contains ref = items.any (·.isText ref) := by
  induction items with
  | nil => rfl
  | cons x items ih =>
    rw [List.any_cons, ← ih]
    cases x with
    | list => rfl
    | dict => rfl
    | scalar s =>
      show (s.value :: _).contains ref = (s.value == ref || _)
      rw [List.contains_cons, Bool.beq_comm]

theorem hasRef_eq {key : String} {items : List Value} (h : o.field? key = some (.list items)) (ref : String) :
    o.hasRef key ref = items.any (·.isText ref) := by
  rw [Object.hasRef, Object.refs, Object.refScalars, h]
  exact contains_texts items ref

theorem get?_changeSettings {settings changed : Dict Value} {configuration : String}
    {change : Dict Value → Option (Dict Value)} (hget : g.get? configuration = some o)
    (hsettings : o.field? "buildSettings" = some (.dict settings)) (hchange : change settings = some changed) (id : String) :
    (g.changeSettings configuration change).1.get? id =
      if id = configuration then some (o.setField "buildSettings" (.dict changed)) else g.get? id := by
  obtain ⟨-, rfl⟩ := Graph.get?_mem hget
  rw [Graph.changeSettings, hget]
  simp only
  rw [hsettings]
  simp only
  rw [hchange]
  exact Graph.get?_store_touch hget (show (o.setField "buildSettings" (.dict changed)).id = o.id from rfl) id

theorem get?_changeSettings_of_ne {configuration : String} (hne : id ≠ configuration)
    (change : Dict Value → Option (Dict Value)) : (g.changeSettings configuration change).1.get? id = g.get? id := by
  rcases g.changeSettings_eq_or_store configuration change with hsame | ⟨p, settings, changed, rfl, hp, -, -, hchanged⟩
  · rw [hsame]
  · rw [hchanged, Graph.get?_store_touch hp (show (p.setField "buildSettings" (.dict changed)).id = p.id from rfl),
      if_neg hne]

theorem get?_removeRef_of_ne {owner : String} (hne : id ≠ owner) (key ref : String) :
    (g.removeRef owner key ref).1.get? id = g.get? id := by
  rcases g.removeRef_eq_or_store owner key ref with hsame | ⟨p, rfl, hp, -, hchanged⟩
  · rw [hsame]
  · rw [hchanged, Graph.get?_store_touch hp (p.id_removeRef key ref), if_neg hne]

theorem changeSettings_of_none {settings : Dict Value} {configuration : String}
    {change : Dict Value → Option (Dict Value)} (hget : g.get? configuration = some o)
    (hsettings : o.field? "buildSettings" = some (.dict settings)) (hchange : change settings = none) :
    (g.changeSettings configuration change).1 = g := by
  rw [Graph.changeSettings, hget]
  simp only
  rw [hsettings]
  simp only
  rw [hchange]

/-- An addition leaves every object as it was, or puts the text at the end of a list of it. -/
theorem get?_apply_of_adds (hc : c.Adds g) (hproper : c.IsProper) (hget : g.get? id = some o) :
    ∃ o', (c.apply g).get? id = some o' ∧ (o' = o ∨ ∃ t items x, c.target? = some t ∧ t.owner = o.id ∧
      o.slot? t.slot = some items ∧ x.isText t.text = true ∧ o' = o.setSlot (items ++ [x]) t.slot) := by
  obtain ⟨-, rfl⟩ := Graph.get?_mem hget
  cases c with
  | add isa fields comment seed =>
    simp only [Change.apply]
    split
    next g' p hadd => exact ⟨o, by rw [Change.get?_addObject hadd, hget]; rfl, .inl rfl⟩
    · exact ⟨o, hget, .inl rfl⟩
  | appendRef owner key ref comment =>
    obtain ⟨p, hp, hopen⟩ := hc
    show ∃ o', (g.appendRef owner key ref comment).1.get? o.id = some o' ∧ _
    rw [Graph.get?_appendRef key ref comment hp]
    by_cases hid : o.id = owner
    · obtain rfl := Option.some.inj ((hid ▸ hget).symm.trans hp)
      obtain ⟨items, hslot, hnone⟩ := hopen _ rfl hid.symm
      have hfield := Object.slot?_field.mp hslot
      have hfree : o.hasRef key ref = false := by
        rw [hasRef_eq hfield]
        exact List.any_eq_false.mpr fun x hx => by simpa using hnone x hx
      refine ⟨o.appendRef key ⟨ref, comment⟩, by rw [if_pos hid, hfree]; rfl,
        .inr ⟨_, items, .scalar ⟨ref, comment⟩, rfl, hid.symm, hslot, ?_, ?_⟩⟩
      · exact beq_iff_eq.mpr (hproper.2.2.1.value comment)
      · show o.setField key (.list (o.listField key ++ _)) = _
        rw [Object.listField, hfield]
        rfl
    · exact ⟨o, by rw [if_neg hid, hget], .inl rfl⟩
  | addSetting configuration name value inherited =>
    obtain ⟨p, hp, hopen⟩ := hc
    obtain ⟨-, hpid⟩ := Graph.get?_mem hp
    obtain ⟨items, hslot, hnone⟩ := hopen _ rfl hpid.symm
    obtain ⟨settings, hsettings, hlist⟩ := Object.slot?_setting.mp hslot
    have hfree : items.any (·.isText value) = false := List.any_eq_false.mpr fun x hx => by simpa using hnone x hx
    have hchange : Graph.settingsAdding settings name value inherited =
        some (settings.set name (.list (items ++ [.text value]))) := by
      rw [Graph.settingsAdding, hlist]
      simp only [hfree]
      rfl
    show ∃ o', (g.changeSettings configuration fun s => Graph.settingsAdding s name value inherited).1.get? o.id =
      some o' ∧ _
    rw [get?_changeSettings hp hsettings hchange]
    by_cases hid : o.id = configuration
    · obtain rfl := Option.some.inj ((hid ▸ hget).symm.trans hp)
      refine ⟨_, by rw [if_pos hid], .inr ⟨_, items, .text value, rfl, hid.symm, hslot, ?_, ?_⟩⟩
      · exact beq_iff_eq.mpr (Scalar.value_of value none)
      · exact (Object.setSlot_setting hsettings _).symm
    · exact ⟨o, by rw [if_neg hid, hget], .inl rfl⟩
  | remove | touch | removeRef | removeSetting => exact hc.elim

theorem settingsRemoving_of_list {settings : Dict Value} {name : String} {items : List Value}
    (hlist : settings.get? name = some (.list items)) (value : String) :
    Graph.settingsRemoving settings name value =
      if items.any (·.isText value) then some (settings.set name (.list (items.filter fun v => !v.isText value)))
      else none := by
  rw [Graph.settingsRemoving, hlist]

/-- What takes something back takes the text out of a list of an object, or leaves the object as it is. -/
theorem get?_apply_of_takes (hc : c.Takes) (hne : c ≠ .remove id) (hget : g.get? id = some o)
    (hlist : ∀ t, c.target? = some t → t.owner = o.id → ∃ items, o.slot? t.slot = some items) :
    ∃ o', (c.apply g).get? id = some o' ∧ ((o' = o ∧ ∀ t, c.target? = some t → t.owner ≠ o.id) ∨
      ∃ t items, c.target? = some t ∧ t.owner = o.id ∧ o.slot? t.slot = some items ∧
        o' = o.setSlot (items.filter fun x => !x.isText t.text) t.slot) := by
  obtain ⟨-, rfl⟩ := Graph.get?_mem hget
  have hkeep {items : List Value} {text : String} (hfree : items.any (·.isText text) = false) :
      (items.filter fun x => !x.isText text) = items :=
    List.filter_eq_self.mpr fun x hx => by rw [Bool.eq_false_iff.mpr (List.any_eq_false.mp hfree x hx)]; rfl
  cases c with
  | remove id =>
    have hid : o.id ≠ id := fun heq => hne (congrArg _ heq.symm)
    refine ⟨o, ?_, .inl ⟨rfl, fun t ht => by contradiction⟩⟩
    show (g.removeObject id).1.get? o.id = some o
    rw [Change.get?_removeObject, if_neg hid, hget]
  | removeRef owner key ref =>
    show ∃ o', (g.removeRef owner key ref).1.get? o.id = some o' ∧ _
    by_cases hid : owner = o.id
    · subst hid
      obtain ⟨items, hslot⟩ := hlist _ rfl rfl
      have hfield := Object.slot?_field.mp hslot
      refine ⟨o.setSlot (items.filter fun x => !x.isText ref) (.field key), ?_, .inr ⟨_, items, rfl, rfl, hslot, rfl⟩⟩
      rw [Graph.removeRef, hget]
      simp only
      by_cases href : o.hasRef key ref = true
      · have hremoved : o.removeRef key ref = o.setSlot (items.filter fun x => !x.isText ref) (.field key) := by
          rw [Object.removeRef, if_pos href, Object.listField, hfield]
          rfl
        rw [if_pos href, Graph.get?_store_touch hget (o.id_removeRef key ref), if_pos rfl, hremoved]
      · rw [if_neg href, hkeep ((hasRef_eq hfield ref).symm.trans (Bool.eq_false_iff.mpr href)),
          Object.setSlot_self hslot, hget]
    · refine ⟨o, by rw [get?_removeRef_of_ne (Ne.symm hid), hget], .inl ⟨rfl, fun t ht => ?_⟩⟩
      obtain rfl := Option.some.inj ht
      exact hid
  | removeSetting configuration name value =>
    show ∃ o', (g.changeSettings configuration fun s => Graph.settingsRemoving s name value).1.get? o.id = some o' ∧ _
    by_cases hid : configuration = o.id
    · subst hid
      obtain ⟨items, hslot⟩ := hlist _ rfl rfl
      obtain ⟨settings, hsettings, hitems⟩ := Object.slot?_setting.mp hslot
      refine ⟨o.setSlot (items.filter fun x => !x.isText value) (.setting name), ?_, .inr ⟨_, items, rfl, rfl, hslot, rfl⟩⟩
      by_cases hany : items.any (·.isText value) = true
      · have hchange : Graph.settingsRemoving settings name value =
            some (settings.set name (.list (items.filter fun x => !x.isText value))) :=
          (settingsRemoving_of_list hitems value).trans (if_pos hany)
        rw [get?_changeSettings hget hsettings hchange, if_pos rfl, Object.setSlot_setting hsettings]
      · have hchange : Graph.settingsRemoving settings name value = none :=
          (settingsRemoving_of_list hitems value).trans (if_neg hany)
        rw [changeSettings_of_none hget hsettings hchange, hkeep (Bool.eq_false_iff.mpr hany), Object.setSlot_self hslot,
          hget]
    · refine ⟨o, by rw [get?_changeSettings_of_ne (Ne.symm hid), hget], .inl ⟨rfl, fun t ht => ?_⟩⟩
      obtain rfl := Option.some.inj ht
      exact hid
  | add | touch | appendRef | addSetting => exact hc.elim

/-! ## Runs -/

/-- What the changes are about in an object is hidden. -/
def Hides (hides : Slot → Value → Bool) (id : String) (changes : List Change) : Prop :=
  ∀ c ∈ changes, ∀ t, c.target? = some t → t.owner = id → ∀ x, x.isText t.text = true → hides t.slot x = true

theorem Change.Adds.isOpen (hc : c.Adds g) (hget : g.get? id = some o) : c.IsOpen o := by
  obtain ⟨-, rfl⟩ := Graph.get?_mem hget
  have hsame {p : Object} {owner : String} (hp : g.get? owner = some p) (howner : owner = o.id) : p = o := by
    rw [howner, hget] at hp
    exact (Option.some.inj hp).symm
  cases c with
  | add => exact fun t ht => by contradiction
  | appendRef owner key ref comment =>
    obtain ⟨p, hp, hopen⟩ := hc
    intro t ht howner
    obtain rfl := Option.some.inj ht
    exact hsame hp howner ▸ hopen _ rfl (howner.trans (hsame hp howner ▸ rfl))
  | addSetting configuration name value inherited =>
    obtain ⟨p, hp, hopen⟩ := hc
    intro t ht howner
    obtain rfl := Option.some.inj ht
    exact hsame hp howner ▸ hopen _ rfl (howner.trans (hsame hp howner ▸ rfl))
  | remove | touch | removeRef | removeSetting => exact hc.elim

/-- Additions are hidden, and the lists that they are made to did not hold them. -/
theorem changed_of_gains (hgains : g.Gains changes) (hproper : ∀ c ∈ changes, c.IsProper)
    (hhides : Hides hides id changes) (hget : g.get? id = some o) : ∃ o', (g.changed changes).get? id = some o' ∧
      o'.hidden hides = o.hidden hides ∧ ∀ c ∈ changes, c.IsOpen o := by
  induction changes generalizing g o with
  | nil => exact ⟨o, hget, rfl, by simp⟩
  | cons c changes ih =>
    obtain ⟨hc, hrest⟩ := hgains
    obtain ⟨o₁, hget₁, hcase⟩ := get?_apply_of_adds hc (hproper c (by simp)) hget
    obtain ⟨-, hid⟩ := Graph.get?_mem hget
    have hstep : o₁.hidden hides = o.hidden hides ∧ ∀ d : Change, d.IsOpen o₁ → d.IsOpen o := by
      rcases hcase with rfl | ⟨t, items, x, ht, howner, hslot, hx, rfl⟩
      · exact ⟨rfl, fun _ h => h⟩
      · have hhidden := hhides c (by simp) t ht (howner.trans hid) x hx
        refine ⟨Object.hidden_setSlot hslot (by simp [hhidden]), fun d hd t' ht' howner' => ?_⟩
        obtain ⟨items', hitems', hfree⟩ := hd t' ht' (howner'.trans (o.id_setSlot _ _).symm)
        by_cases hsame : t'.slot = t.slot
        · rw [hsame, Object.slot?_setSlot_self hslot] at hitems'
          obtain rfl := Option.some.inj hitems'
          exact ⟨items, hsame ▸ hslot, fun y hy => hfree y (List.mem_append_left _ hy)⟩
        · rw [Object.slot?_setSlot_of_ne hslot hsame] at hitems'
          exact ⟨items', hitems', hfree⟩
    obtain ⟨o', hget', hhidden, hopen⟩ := ih hrest (fun d hd => hproper d (by simp [hd]))
      (fun d hd => hhides d (by simp [hd])) hget₁
    exact ⟨o', hget', hhidden.trans hstep.1,
      List.forall_mem_cons.mpr ⟨hc.isOpen hget, fun d hd => hstep.2 d (hopen d hd)⟩⟩

/-- What was hidden is taken back, and the lists no longer hold it. -/
theorem changed_of_takes (htakes : ∀ c ∈ changes, c.Takes ∧ c ≠ .remove id ∧ c.IsOpen (o.hidden hides))
    (hhides : Hides hides id changes) (hget : g.get? id = some o) : ∃ o', (g.changed changes).get? id = some o' ∧
      o'.hidden hides = o.hidden hides ∧ (∀ d : Change, d.IsOpen o → d.IsOpen o') ∧ ∀ c ∈ changes, c.IsOpen o' := by
  induction changes generalizing g o with
  | nil => exact ⟨o, hget, rfl, fun _ h => h, by simp⟩
  | cons c changes ih =>
    obtain ⟨hc, hne, hopen⟩ := htakes c (by simp)
    obtain ⟨-, hid⟩ := Graph.get?_mem hget
    obtain ⟨o₁, hget₁, hcase⟩ := get?_apply_of_takes hc hne hget fun t ht howner => by
      obtain ⟨items, hslot, -⟩ := hopen t ht howner
      obtain ⟨items, hslot, -⟩ := Object.slot?_hidden hslot
      exact ⟨items, hslot⟩
    have hstep : o₁.hidden hides = o.hidden hides ∧ (∀ d : Change, d.IsOpen o → d.IsOpen o₁) ∧ c.IsOpen o₁ := by
      rcases hcase with ⟨rfl, hnone⟩ | ⟨t, items, ht, howner, hslot, rfl⟩
      · exact ⟨rfl, fun _ h => h, fun t ht howner => absurd howner (hnone t ht)⟩
      · have hself := Object.slot?_setSlot_self hslot (items.filter fun x => !x.isText t.text)
        refine ⟨Object.hidden_setSlot hslot ?_, fun d hd t' ht' howner' => ?_, fun t' ht' _ => ?_⟩
        · rw [List.filter_filter]
          refine List.filter_congr fun x _ => ?_
          cases hx : x.isText t.text with
          | true => rw [hhides c (by simp) t ht (howner.trans hid) x hx]; rfl
          | false => exact Bool.and_true _
        · rw [Object.id_setSlot] at howner'
          obtain ⟨items', hslot', hfree⟩ := hd t' ht' howner'
          by_cases hsame : t'.slot = t.slot
          · rw [hsame, hslot] at hslot'
            obtain rfl := Option.some.inj hslot'
            exact ⟨_, by rw [hsame]; exact hself, fun x hx => hfree x (List.mem_filter.mp hx).1⟩
          · exact ⟨items', by rwa [Object.slot?_setSlot_of_ne hslot hsame], hfree⟩
        · obtain rfl := Option.some.inj (ht.symm.trans ht')
          exact ⟨_, hself, fun x hx => by simpa using (List.mem_filter.mp hx).2⟩
    obtain ⟨o', hget', hhidden, hkeeps, hopen'⟩ := ih
      (fun d hd => by rw [hstep.1]; exact htakes d (by simp [hd])) (fun d hd => hhides d (by simp [hd])) hget₁
    exact ⟨o', hget', hhidden.trans hstep.1, fun d hd => hkeeps d (hstep.2.1 d hd),
      List.forall_mem_cons.mpr ⟨hkeeps c hstep.2.2, hopen'⟩⟩

/-! ## What changes hide -/

/-- The items of an object that the changes are about. -/
def hidesIn (changes : List Change) (id : String) (s : Slot) (x : Value) : Bool :=
  changes.any fun c => c.target?.any fun t => t.owner == id && (t.slot == s && x.isText t.text)

theorem hidesIn_eq_true {s : Slot} {x : Value} : hidesIn changes id s x = true ↔
    ∃ c ∈ changes, ∃ t, c.target? = some t ∧ t.owner = id ∧ t.slot = s ∧ x.isText t.text = true := by
  simp [hidesIn, Option.any_eq_true]

theorem hides_hidesIn {undone : List Change} (h : ∀ c ∈ undone, ∃ d ∈ changes, d.target? = c.target?) :
    Hides (hidesIn changes id) id undone := by
  intro c hc t ht howner x hx
  obtain ⟨d, hd, hsame⟩ := h c hc
  exact hidesIn_eq_true.mpr ⟨d, hd, t, hsame.trans ht, howner, rfl, hx⟩

theorem hidesIn_tidy (s : Slot) (x : Value) : hidesIn changes id s x.tidy = hidesIn changes id s x := by
  simp only [hidesIn, Value.isText_tidy]

/-- An object is seen as it is when its lists do not hold what the changes are about. -/
theorem hidden_hidesIn (ho : o.IsProper) (hopen : ∀ c ∈ changes, c.IsOpen o) : o.hidden (hidesIn changes o.id) = o := by
  refine Object.hidden_eq_self ho fun s items hslot x hx => Bool.eq_false_iff.mpr fun hhides => ?_
  obtain ⟨c, hc, t, ht, howner, rfl, htext⟩ := hidesIn_eq_true.mp hhides
  obtain ⟨items', hslot', hfree⟩ := hopen c hc t ht howner
  obtain rfl := Option.some.inj (hslot.symm.trans hslot')
  rw [hfree x hx] at htext
  contradiction

/-! ## Everything taken back -/

theorem Change.IsProper.undo (hc : c.IsProper) : (c.undo g).IsProper := by
  cases c with
  | add => exact trivial
  | appendRef => exact ⟨hc.1, hc.2.1⟩
  | addSetting => exact hc.1
  | remove | touch | removeRef | removeSetting => exact hc

theorem isProper_undoing (hproper : ∀ c ∈ changes, c.IsProper) : ∀ c ∈ g.undoing changes, c.IsProper := by
  induction changes generalizing g with
  | nil => simp [Graph.undoing]
  | cons c changes ih =>
    obtain ⟨hc, hrest⟩ := List.forall_mem_cons.mp hproper
    exact List.forall_mem_cons.mpr ⟨hc.undo, ih hrest⟩

/-- What was there before the additions is not taken out. -/
theorem ne_remove_of_undoing (hgains : g.Gains changes) (hproper : ∀ c ∈ changes, c.IsProper)
    (hget : g.get? id = some o) : ∀ c ∈ g.undoing changes, c ≠ .remove id := by
  induction changes generalizing g o with
  | nil => simp [Graph.undoing]
  | cons c changes ih =>
    obtain ⟨hc, hrest⟩ := hgains
    obtain ⟨o', hget', -⟩ := get?_apply_of_adds hc (hproper c (by simp)) hget
    refine List.forall_mem_cons.mpr ⟨?_, ih hrest (fun d hd => hproper d (by simp [hd])) hget'⟩
    cases c with
    | add isa fields comment seed =>
      intro heq
      obtain ⟨ho, hid⟩ := Graph.get?_mem hget
      have hnew : g.newId seed = o.id := (Change.remove.inj heq).trans hid.symm
      exact Graph.newId_notMem g seed (hnew ▸ List.mem_map_of_mem ho)
    | appendRef | addSetting => exact nofun
    | remove | touch | removeRef | removeSetting => exact hc.elim

/-- When additions were written and read again, and then all taken back, in whatever order, every object is what it
was. -/
theorem Follows.get?_changed_undone {g₀ g' : Graph} (h : Follows g₀ g) (hgains : g.Gains changes)
    (hproper : ∀ c ∈ changes, c.IsProper) (hmatches : Matches (g.changed changes) g') (hfollows : Follows g' g')
    {undone : List Change} (hundone : undone.Perm (g.undoing changes)) (hget : g.get? id = some o) :
    (g'.changed undone).get? id = some o.tidy := by
  obtain ⟨ho, rfl⟩ := Graph.get?_mem hget
  have htargets : (undone.map Change.target?).Perm (changes.map Change.target?) :=
    (hundone.map _).trans (.of_eq (Graph.map_target?_undoing g changes))
  have hsame : ∀ c ∈ undone, ∃ d ∈ changes, d.target? = c.target? := fun c hc =>
    List.mem_map.mp (htargets.mem_iff.mp (List.mem_map_of_mem hc))
  obtain ⟨o₁, hget₁, hadded, hopen⟩ :=
    changed_of_gains hgains hproper (hides_hidesIn fun c hc => ⟨c, hc, rfl⟩) hget
  have hseen : o.hidden (hidesIn changes o.id) = o := hidden_hidesIn (h.proper o ho) hopen
  -- Reading again what was written leaves what is seen.
  have hread : g'.get? o.id = some o₁.tidy := by rw [hmatches.get?, hget₁]; rfl
  have hagain : o₁.tidy.hidden (hidesIn changes o.id) = o.tidy := by
    rw [Object.hidden_tidy hidesIn_tidy, hadded, hseen]
  have htakes : ∀ c ∈ undone, c.Takes ∧ c ≠ .remove o.id ∧ c.IsOpen (o₁.tidy.hidden (hidesIn changes o.id)) := by
    intro c hc
    have hin := hundone.mem_iff.mp hc
    obtain ⟨d, hd, htarget⟩ := hsame c hc
    refine ⟨Graph.takes_undoing hgains c hin, ne_remove_of_undoing hgains hproper hget c hin, ?_⟩
    rw [hagain]
    exact ((hopen d hd).congr htarget.symm).tidy
  obtain ⟨o₂, hget₂, htaken, -, hopen₂⟩ := changed_of_takes htakes (hides_hidesIn hsame) hread
  obtain ⟨ho₂, hid⟩ := Graph.get?_mem hget₂
  have hfollows' := hfollows.changed fun c hc => isProper_undoing hproper c (hundone.mem_iff.mp hc)
  have hseen₂ : o₂.hidden (hidesIn changes o₂.id) = o₂ := hidden_hidesIn (hfollows'.proper o₂ ho₂) fun d hd => by
    obtain ⟨c, hc, htarget⟩ := List.mem_map.mp (htargets.mem_iff.mpr (List.mem_map_of_mem hd))
    exact (hopen₂ c hc).congr htarget.symm
  rw [hid] at hseen₂
  have hback : o₂ = o.tidy := calc
    o₂ = o₂.hidden (hidesIn changes o.id) := hseen₂.symm
    _ = o₁.tidy.hidden (hidesIn changes o.id) := htaken
    _ = o.tidy := hagain
  rw [hget₂, hback]

/-! ## What was added -/

/-- A change to fields leaves the ids as they are. -/
theorem ids_apply_of_writes {key : String} (hc : c.writes? = some key) (g : Graph) : (c.apply g).ids = g.ids := by
  rcases Change.apply_eq_or_store hc g with heq | ⟨o, -, v, heq⟩
  · rw [heq]
  · rw [heq, touch_eq]
    exact ids_store g _

/-- What was taken out is gone, and nothing that takes away brings it back. -/
theorem get?_changed_eq_none {undone : List Change} (htakes : ∀ c ∈ undone, c.Takes)
    (h : .remove id ∈ undone ∨ g.get? id = none) : (g.changed undone).get? id = none := by
  induction undone generalizing g with
  | nil => exact h.resolve_left List.not_mem_nil
  | cons c undone ih =>
    obtain ⟨hc, hrest⟩ := List.forall_mem_cons.mp htakes
    refine ih hrest ?_
    have hstays (hnone : g.get? id = none) : (c.apply g).get? id = none := by
      cases c with
      | remove id' =>
        rw [Change.apply, Change.get?_removeObject, hnone, ite_self]
      | removeRef | removeSetting =>
        rw [Graph.get?_eq_none_iff, ids_apply_of_writes rfl, ← Graph.get?_eq_none_iff]
        exact hnone
      | add | touch | appendRef | addSetting => exact hc.elim
    rcases h with hin | hnone
    · rcases List.mem_cons.mp hin with rfl | hin
      · exact .inr (by rw [Change.apply, Change.get?_removeObject, if_pos rfl])
      · exact .inl hin
    · exact .inr (hstays hnone)

/-- What is new is taken out when all additions are taken back. -/
theorem remove_mem_undoing (hgains : g.Gains changes) (hnew : id ∈ (g.changed changes).ids) (hid : id ∉ g.ids) :
    .remove id ∈ g.undoing changes := by
  induction changes generalizing g with
  | nil => exact absurd hnew hid
  | cons c changes ih =>
    obtain ⟨hc, hrest⟩ := hgains
    by_cases hin : id ∈ (c.apply g).ids
    · cases c with
      | add isa fields comment seed =>
        rw [Change.apply] at hin
        split at hin
        next g' o hadd =>
          obtain ⟨values, -, hadd⟩ := ok_of_bind hadd
          obtain ⟨rfl, -⟩ := Prod.mk.inj (Except.ok.inj hadd)
          have hin : id ∈ (g.objects ++ [_]).map Object.id := hin
          rw [List.map_append, List.mem_append, List.map_singleton, List.mem_singleton] at hin
          rw [hin.resolve_left hid]
          exact List.mem_cons_self
        · exact absurd hin hid
      | appendRef | addSetting =>
        rw [ids_apply_of_writes rfl] at hin
        exact absurd hin hid
      | remove | touch | removeRef | removeSetting => exact hc.elim
    · exact List.mem_cons_of_mem _ (ih hrest hnew hin)

end Xcode
end ModuleLink
