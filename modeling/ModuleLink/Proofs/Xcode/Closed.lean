import ModuleLink.Proofs.Xcode.Undo
import ModuleLink.Proofs.Xcode.Widened

/-!
Graphs in which every id that is referred to is that of an object.  Taking an object out leaves such a graph where every
reference to the object was taken out before; what is still there is found where it was found.
-/

namespace ModuleLink
namespace Xcode

open Plist

/-! ## Where ids stand -/

/-- A place of an object that a text can stand in. -/
inductive Place where
  | item (key : String)
  | field (key : String)
  /-- An entry for a project that is listed in the project. -/
  | entry
deriving DecidableEq

/-- The places whose texts are ids of objects. -/
def idPlaces : List Place :=
  ["children", "files", "buildPhases", "targets", "buildConfigurations"].map .item ++
    ["fileRef", "productReference", "containerPortal", "remoteRef"].map .field ++ [.entry]

/-- The project that an entry is for. -/
def projectRef? : Value → Option String
  | .dict d =>
    match d.get? "ProjectRef" with
    | some (.scalar s) => some s.value
    | _ => none
  | _ => none

namespace Object

/-- The projects that are listed in the project. -/
def projectRefs (o : Object) : List String :=
  match o.field? "projectReferences" with
  | some (.list items) => items.filterMap projectRef?
  | _ => []

/-- The texts that stand in the place. -/
def held (o : Object) : Place → List String
  | .item key => o.refs key
  | .field key => (o.text? key).toList
  | .entry => o.projectRefs

/-- The places in which something can stand. -/
def places (o : Object) : List Place := (o.fields.keys.flatMap fun key => [.item key, .field key]) ++ [.entry]

theorem mem_places {o : Object} {text : String} {place : Place} (h : text ∈ o.held place) : place ∈ o.places := by
  have hkey {key : String} (hsome : o.field? key ≠ none) : key ∈ o.fields.keys := by
    by_contra hnot
    exact hsome (Dict.lookup_eq_none_iff.mpr hnot)
  cases place with
  | item key =>
    refine List.mem_append_left _ (List.mem_flatMap.mpr ⟨key, hkey fun hnone => ?_, by simp⟩)
    rw [held, refs, refScalars, hnone] at h
    exact absurd h List.not_mem_nil
  | field key =>
    refine List.mem_append_left _ (List.mem_flatMap.mpr ⟨key, hkey fun hnone => ?_, by simp⟩)
    rw [held, text?, hnone] at h
    exact absurd h List.not_mem_nil
  | entry => simp [places]

/-- The object is what it was but for its settings and for texts that its lists have lost. -/
structure Narrows (lost : String → Prop) (o o' : Object) : Prop where
  id : o'.id = o.id
  fields : ∀ k, k ∉ listKeys → o'.field? k = o.field? k
  held : ∀ place, o'.held place ⊆ o.held place
  children : ∃ p : String → Bool, (∀ ref, p ref = false → lost ref) ∧ o'.refs "children" = (o.refs "children").filter p

variable {o o' o'' : Object} {lost lost' : String → Prop} {key ref : String}

theorem narrows_refl (lost : String → Prop) (o : Object) : o.Narrows lost o where
  id := rfl
  fields _ _ := rfl
  held _ _ h := h
  children := ⟨fun _ => true, by simp, (List.filter_eq_self.mpr fun _ _ => rfl).symm⟩

theorem Narrows.mono (h : o.Narrows lost o') (hlost : ∀ ref, lost ref → lost' ref) : o.Narrows lost' o' where
  id := h.id
  fields := h.fields
  held := h.held
  children := by
    obtain ⟨p, hp, hchildren⟩ := h.children
    exact ⟨p, fun ref href => hlost ref (hp ref href), hchildren⟩

theorem Narrows.trans (h : o.Narrows lost o') (h' : o'.Narrows lost o'') : o.Narrows lost o'' where
  id := h'.id.trans h.id
  fields k hk := (h'.fields k hk).trans (h.fields k hk)
  held place _ htext := h.held place (h'.held place htext)
  children := by
    obtain ⟨p, hp, hchildren⟩ := h.children
    obtain ⟨p', hp', hchildren'⟩ := h'.children
    refine ⟨fun ref => p ref && p' ref, fun ref href => ?_, ?_⟩
    · rcases Bool.and_eq_false_iff.mp href with href | href
      · exact hp ref href
      · exact hp' ref href
    · rw [hchildren', hchildren, List.filter_filter]
      exact List.filter_congr fun ref _ => Bool.and_comm _ _

theorem Narrows.text? (h : o.Narrows lost o') {k : String} (hk : k ∉ listKeys) : o'.text? k = o.text? k := by
  rw [Object.text?, Object.text?, h.fields k hk]

theorem Narrows.refs (h : o.Narrows lost o') {k : String} (hk : k ∉ listKeys) : o'.refs k = o.refs k := by
  rw [Object.refs, Object.refs, refScalars, refScalars, h.fields k hk]

theorem Narrows.isa (h : o.Narrows lost o') : o'.isa = o.isa := by rw [Object.isa, Object.isa, h.text? (by decide)]

theorem Narrows.label? (h : o.Narrows lost o') : o'.label? = o.label? := by
  rw [Object.label?, Object.label?, h.text? (by decide), h.text? (by decide)]

/-- A key that is written anew with fewer texts, or with none. -/
theorem narrows_setField {v : Value} (hkey : key ∈ listKeys) (htext : (o.setField key v).text? key = none)
    (hrefs : ∃ p : String → Bool, (∀ ref, p ref = false → lost ref ∨ key ≠ "children") ∧
      (o.setField key v).refs key = (o.refs key).filter p) : o.Narrows lost (o.setField key v) where
  id := rfl
  fields k hk := field?_setField_of_ne (by rintro rfl; exact hk hkey) v
  held place text h := by
    cases place with
    | item k =>
      by_cases hk : k = key
      · subst hk
        obtain ⟨p, -, hrefs⟩ := hrefs
        have h : text ∈ (o.setField k v).refs k := h
        rw [hrefs] at h
        exact List.mem_of_mem_filter h
      · have h : text ∈ (o.setField key v).refs k := h
        rwa [Object.refs, refScalars_setField_of_ne hk] at h
    | field k =>
      by_cases hk : k = key
      · subst hk
        exact absurd (htext.symm.trans (Option.mem_toList.mp h)) (by simp)
      · exact Option.mem_toList.mpr ((text?_setField_of_ne hk v).symm.trans (Option.mem_toList.mp h))
    | entry =>
      have hk : "projectReferences" ≠ key := by
        rintro rfl
        exact absurd hkey (by decide)
      have h : text ∈ (o.setField key v).projectRefs := h
      rwa [projectRefs, field?_setField_of_ne hk] at h
  children := by
    by_cases hk : "children" = key
    · subst hk
      obtain ⟨p, hp, hrefs⟩ := hrefs
      exact ⟨p, fun ref href => (hp ref href).resolve_right fun hne => hne rfl, hrefs⟩
    · refine ⟨fun _ => true, by simp, ?_⟩
      rw [Object.refs, refScalars_setField_of_ne hk]
      exact (List.filter_eq_self.mpr fun _ _ => rfl).symm

/-- The texts that are left are the others. -/
theorem refs_removeRef_self : (o.removeRef key ref).refs key = (o.refs key).filter (· != ref) := by
  rw [Object.refs, refScalars_removeRef_self, Object.refs, List.filter_map]
  rfl

theorem narrows_removeRef (hkey : key ∈ listKeys) (hlost : lost ref) : o.Narrows lost (o.removeRef key ref) := by
  have hrefs : (o.removeRef key ref).refs key = (o.refs key).filter (· != ref) := refs_removeRef_self
  rw [removeRef] at hrefs ⊢
  split at hrefs
  next href =>
    rw [if_pos href]
    refine narrows_setField hkey ?_ ⟨_, fun text htext => .inl ?_, hrefs⟩
    · rw [Object.text?, field?_setField_self]
    · rw [bne_eq_false_iff_eq] at htext
      rwa [htext]
  next href =>
    rw [if_neg href]
    exact narrows_refl lost o

theorem narrows_setSettings (settings : Dict Value) : o.Narrows lost (o.setField "buildSettings" (.dict settings)) := by
  have hfield : (o.setField "buildSettings" (.dict settings)).field? "buildSettings" = some (.dict settings) :=
    field?_setField_self _
  refine narrows_setField (by decide) ?_ ⟨fun _ => false, fun _ _ => .inr (by decide), ?_⟩
  · rw [Object.text?, hfield]
  · rw [Object.refs, refScalars, hfield]
    simp

end Object

namespace Graph

variable {g g' g'' g₀ : Graph} {o o' group : Object} {lost lost' : String → Prop} {id key owner : String}
  {fits : Option String → Bool}

/-- Every id that is referred to is that of an object. -/
def IsClosed (g : Graph) : Prop := ∀ o ∈ g.objects, ∀ place ∈ idPlaces, ∀ id ∈ o.held place, id ∈ g.ids

instance (g : Graph) : Decidable g.IsClosed := inferInstanceAs (Decidable (∀ o ∈ g.objects, _))

/-- The text stands in no place but those. -/
def HeldOnly (g : Graph) (text : String) (R : Object → Place → Prop) : Prop :=
  ∀ o ∈ g.objects, ∀ place, text ∈ o.held place → R o place

instance (g : Graph) (text : String) (R : Object → Place → Prop) [∀ o place, Decidable (R o place)] :
    Decidable (g.HeldOnly text R) :=
  decidable_of_iff (∀ o ∈ g.objects, ∀ place ∈ o.places, text ∈ o.held place → R o place)
    ⟨fun h o ho place hin => h o ho place (Object.mem_places hin) hin, fun h o ho place _ hin => h o ho place hin⟩

/-- Every object was there before, and its lists of children have lost such texts only. -/
structure Narrows (lost : String → Prop) (g g' : Graph) : Prop where
  root : g'.root = g.root
  origin : ∀ {id o'}, g'.get? id = some o' → ∃ o, g.get? id = some o ∧ o.Narrows lost o'

theorem narrows_refl (lost : String → Prop) (g : Graph) : g.Narrows lost g := ⟨rfl, fun {_ o} ho => ⟨o, ho, o.narrows_refl lost⟩⟩

theorem Narrows.mono (h : g.Narrows lost g') (hlost : ∀ ref, lost ref → lost' ref) : g.Narrows lost' g' where
  root := h.root
  origin ho := by
    obtain ⟨o, hget, hnarrows⟩ := h.origin ho
    exact ⟨o, hget, hnarrows.mono hlost⟩

theorem Narrows.trans (h : g.Narrows lost g') (h' : g'.Narrows lost g'') : g.Narrows lost g'' where
  root := h'.root.trans h.root
  origin ho := by
    obtain ⟨o', hget', hnarrows'⟩ := h'.origin ho
    obtain ⟨o, hget, hnarrows⟩ := h.origin hget'
    exact ⟨o, hget, hnarrows.trans hnarrows'⟩

/-! ## Steps -/

theorem narrows_store_touch (hget : g.get? o.id = some o) (h : o.Narrows lost o') :
    g.Narrows lost ((g.store o').touch o.id) where
  root := by rw [root_touch]; rfl
  origin {id p} hp := by
    rw [get?_store_touch hget h.id] at hp
    split at hp
    next hid =>
      rw [← Option.some.inj hp]
      exact ⟨o, by rw [hid, hget], h⟩
    · exact ⟨p, hp, p.narrows_refl lost⟩

theorem narrows_removeRef (hkey : key ∈ listKeys) (hlost : lost id) : g.Narrows lost (g.removeRef owner key id).1 := by
  rcases g.removeRef_eq_or_store owner key id with hsame | ⟨o, -, hget, -, hchanged⟩
  · rw [hsame]
    exact g.narrows_refl lost
  · rw [hchanged]
    exact narrows_store_touch hget (Object.narrows_removeRef hkey hlost)

theorem narrows_changeSettings (configuration : String) (change : Dict Value → Option (Dict Value)) :
    g.Narrows lost (g.changeSettings configuration change).1 := by
  rcases g.changeSettings_eq_or_store configuration change with hsame | ⟨o, settings, changed, -, hget, -, -, hchanged⟩
  · rw [hsame]
    exact g.narrows_refl lost
  · rw [hchanged]
    exact narrows_store_touch hget (Object.narrows_setSettings changed)

theorem narrows_removeObject (lost : String → Prop) (g : Graph) (id : String) : g.Narrows lost (g.removeObject id).1 where
  root := Change.root_removeObject g id
  origin {id' o} ho := by
    rw [Change.get?_removeObject] at ho
    split at ho
    · contradiction
    · exact ⟨o, ho, o.narrows_refl lost⟩

/-! ## What is found -/

theorem Narrows.exists_origin (h : g.Narrows lost g') (ho' : o' ∈ g'.objects) (hnodup : g'.ids.Nodup) :
    ∃ o ∈ g.objects, o.Narrows lost o' := by
  obtain ⟨o, hget, hnarrows⟩ := h.origin (Graph.get?_of_mem hnodup ho')
  exact ⟨o, (Graph.get?_mem hget).1, hnarrows⟩

theorem Narrows.project (h : g.Narrows lost g') (hproject : g'.project = .ok o') :
    ∃ o, g.project = .ok o ∧ o.Narrows lost o' := by
  obtain ⟨s, hroot, hget⟩ := project_eq_ok_iff.mp hproject
  obtain ⟨o, hget', hnarrows⟩ := h.origin hget
  exact ⟨o, project_eq_ok_iff.mpr ⟨s, by rw [← h.root, hroot], hget'⟩, hnarrows⟩

theorem Narrows.mainGroup (h : g.Narrows lost g') (hmain : g'.mainGroup = .ok (some o')) :
    ∃ o, g.mainGroup = .ok (some o) ∧ o.Narrows lost o' := by
  obtain ⟨s, project', hroot, hproject', hbind⟩ := mainGroup_eq_some_iff.mp hmain
  obtain ⟨id, hid, hget'⟩ := Option.bind_eq_some_iff.mp hbind
  obtain ⟨project, hproject, hnarrows⟩ := h.origin hproject'
  obtain ⟨o, hget, ho⟩ := h.origin hget'
  refine ⟨o, mainGroup_eq_some_iff.mpr ⟨s, project, by rw [← h.root, hroot], hproject, ?_⟩, ho⟩
  rw [← hnarrows.text? (by decide), hid, Option.bind_some, hget]

theorem Narrows.applicationTargets (h : g.Narrows lost g') {targets targets' : List Object}
    (htargets : g.applicationTargets = .ok targets) (htargets' : g'.applicationTargets = .ok targets') :
    ∀ t' ∈ targets', ∃ t ∈ targets, t.Narrows lost t' := by
  obtain ⟨all, hall, htargets⟩ := ok_of_bind htargets
  obtain ⟨project, hproject, hall⟩ := ok_of_bind hall
  obtain ⟨all', hall', htargets'⟩ := ok_of_bind htargets'
  obtain ⟨project', hproject', hall'⟩ := ok_of_bind hall'
  obtain rfl := Except.ok.inj hall
  obtain rfl := Except.ok.inj htargets
  obtain rfl := Except.ok.inj hall'
  obtain rfl := Except.ok.inj htargets'
  obtain ⟨p, hp, hnarrows⟩ := h.project hproject'
  obtain rfl := Except.ok.inj (hproject.symm.trans hp)
  intro t' ht'
  obtain ⟨ht', htype⟩ := List.mem_filter.mp ht'
  obtain ⟨ht', hkind⟩ := List.mem_filter.mp ht'
  obtain ⟨ref, href, hget'⟩ := List.mem_filterMap.mp ht'
  obtain ⟨t, hget, ht⟩ := h.origin hget'
  refine ⟨t, List.mem_filter.mpr ⟨List.mem_filter.mpr ⟨List.mem_filterMap.mpr ⟨ref, ?_, hget⟩, ?_⟩, ?_⟩, ht⟩
  · rwa [hnarrows.refs (by decide)] at href
  · rwa [ht.isa] at hkind
  · rwa [ht.text? (by decide)] at htype

/-- The first object of a kind among references is still the first one, if it is still there. -/
theorem Narrows.find? (h : g.Narrows lost g') {f : Object → Bool} (hf : ∀ o o', o.Narrows lost o' → f o' = f o)
    {refs : List String} (hfind : (refs.filterMap g.get?).find? f = some o) (hget' : g'.get? o.id = some o') :
    (refs.filterMap g'.get?).find? f = some o' := by
  induction refs with
  | nil => contradiction
  | cons ref refs ih =>
    cases hget : g.get? ref with
    | none =>
      rw [List.filterMap_cons_none hget] at hfind
      cases hget₁ : g'.get? ref with
      | none =>
        rw [List.filterMap_cons_none hget₁]
        exact ih hfind
      | some p =>
        obtain ⟨_, hget₀, -⟩ := h.origin hget₁
        rw [hget] at hget₀
        contradiction
    | some q =>
      rw [List.filterMap_cons_some hget] at hfind
      by_cases hq : f q = true
      · rw [List.find?_cons_of_pos hq] at hfind
        obtain rfl := Option.some.inj hfind
        have href : ref = q.id := (Graph.get?_mem hget).2.symm
        rw [← href] at hget'
        obtain ⟨q₀, hget₀, hnarrows⟩ := h.origin hget'
        obtain rfl := Option.some.inj (hget.symm.trans hget₀)
        rw [List.filterMap_cons_some hget', List.find?_cons_of_pos (by rw [hf _ _ hnarrows, hq])]
      · rw [List.find?_cons_of_neg hq] at hfind
        cases hget₁ : g'.get? ref with
        | none =>
          rw [List.filterMap_cons_none hget₁]
          exact ih hfind
        | some p =>
          obtain ⟨q₀, hget₀, hnarrows⟩ := h.origin hget₁
          obtain rfl := Option.some.inj (hget.symm.trans hget₀)
          rw [List.filterMap_cons_some hget₁, List.find?_cons_of_neg (by rw [hf _ _ hnarrows]; exact hq)]
          exact ih hfind

theorem Narrows.buildPhase (h : g.Narrows lost g') {target target' phase : Object} (htarget : target.Narrows lost' target')
    {isa : String} (hphase : g.buildPhase target isa = some phase) (hget' : g'.get? phase.id = some o') :
    g'.buildPhase target' isa = some o' := by
  rw [Graph.buildPhase, htarget.refs (by decide)]
  exact h.find? (fun o o' hnarrows => by rw [hnarrows.isa]) hphase hget'

/-- The first group of a name is still the first one, if it and the main group are still there. -/
theorem Narrows.findGroup (h : g.Narrows (fun id => id ∉ g'.ids) g') {main main' found : Object}
    (hmain : g.mainGroup = .ok (some main)) (hmain' : g'.mainGroup = .ok (some main'))
    (hfind : g.findGroup fits = .ok (some found)) (hget' : g'.get? found.id = some o') :
    g'.findGroup fits = .ok (some o') := by
  obtain ⟨m, hm, hin⟩ := findGroup_eq_some_iff.mp hfind
  obtain rfl := Option.some.inj (Except.ok.inj (hmain.symm.trans hm))
  obtain ⟨m, hm, hnarrows⟩ := h.mainGroup hmain'
  obtain rfl := Option.some.inj (Except.ok.inj (hmain.symm.trans hm))
  refine findGroup_eq_some_iff.mpr ⟨main', hmain', ?_⟩
  obtain ⟨p, hp, hchildren⟩ := hnarrows.children
  have hsame : (main'.refs "children").filterMap g'.get? = (main.refs "children").filterMap g'.get? := by
    -- Texts that were lost name no object.
    rw [hchildren, List.filterMap_filter]
    refine List.filterMap_congr fun ref _ => ?_
    split
    · rfl
    next hno => exact (Graph.get?_eq_none_iff.mpr (hp ref (Bool.eq_false_iff.mpr hno))).symm
  rw [Graph.groupIn, hsame]
  exact h.find? (fun o o' hnarrows => by rw [hnarrows.isa, hnarrows.label?]) hin hget'

/-! ## Parts of a graph -/

/-- A graph with fewer objects, in which everything that is referred to is there, and the main group as well. -/
structure IsPart (g₀ g : Graph) : Prop where
  narrows : g₀.Narrows (fun id => id ∉ g.ids) g
  closed : g.IsClosed
  indexed : g.IsIndexed
  main : ∀ main, g₀.mainGroup = .ok (some main) → main.id ∈ g.ids

/-- A graph in which some lists have lost the text, and nothing else is different. -/
structure Detached (id : String) (g g' : Graph) : Prop where
  narrows : g.Narrows (· = id) g'
  ids : g'.ids = g.ids
  indexed : g'.IsIndexed

theorem isPart_refl (hclosed : g.IsClosed) (hindexed : g.IsIndexed) : g.IsPart g where
  narrows := g.narrows_refl _
  closed := hclosed
  indexed := hindexed
  main _ hmain := List.mem_map_of_mem (Graph.get?_mem (get?_of_mainGroup hmain)).1

theorem exists_get?_of_mem (h : id ∈ g.ids) : ∃ o, g.get? id = some o := by
  cases hget : g.get? id with
  | none => exact absurd h (Graph.get?_eq_none_iff.mp hget)
  | some o => exact ⟨o, rfl⟩

theorem detached_refl (id : String) (hindexed : g.IsIndexed) : Detached id g g := ⟨g.narrows_refl _, rfl, hindexed⟩

theorem Detached.trans (h : Detached id g g') (h' : Detached id g' g'') : Detached id g g'' where
  narrows := h.narrows.trans h'.narrows
  ids := h'.ids.trans h.ids
  indexed := h'.indexed

theorem detached_removeRef (hindexed : g.IsIndexed) (hkey : key ∈ ["children", "files"]) (owner id : String) :
    Detached id g ((Change.removeRef owner key id).apply g) where
  narrows := narrows_removeRef (List.mem_of_mem_dropLast hkey) rfl
  ids := ids_apply_of_writes rfl g
  indexed := hindexed.apply_writing rfl (by rintro rfl; exact absurd hkey (by decide))

/-- A list that the text was taken out of does not hold it. -/
theorem notMem_held_of_removeRef (hindexed : ((Change.removeRef owner key id).apply g).IsIndexed)
    (ho : o ∈ ((Change.removeRef owner key id).apply g).objects) (hid : o.id = owner) : id ∉ o.held (.item key) := by
  intro hin
  obtain ⟨s, hs, hvalue⟩ := List.mem_map.mp hin
  exact ne_of_mem_removeRef (hid ▸ Graph.get?_of_mem hindexed.nodup ho) hs hvalue

/-- What stands in a place of a part stood there before. -/
theorem HeldOnly.of_narrows {text : String} {R : Object → Place → Prop} (h : g.HeldOnly text R) (hnarrows : g.Narrows lost g')
    (hnodup : g'.ids.Nodup) (ho' : o' ∈ g'.objects) {place : Place} (hin : text ∈ o'.held place) :
    ∃ o ∈ g.objects, o.Narrows lost o' ∧ R o place := by
  obtain ⟨o, ho, hwas⟩ := hnarrows.exists_origin ho' hnodup
  exact ⟨o, ho, hwas, h o ho place (hwas.held place hin)⟩

/-- The main group stands in the project. -/
theorem HeldOnly.ne_main {main : Object} {R : Object → Place → Prop} (h : g.HeldOnly id R)
    (hR : ∀ o, ¬R o (.field "mainGroup")) (hmain : g.mainGroup = .ok (some main)) : id ≠ main.id := by
  rintro rfl
  obtain ⟨s, project, -, hproject, hbind⟩ := mainGroup_eq_some_iff.mp hmain
  obtain ⟨ref, href, hget⟩ := Option.bind_eq_some_iff.mp hbind
  obtain rfl := (Graph.get?_mem hget).2
  exact hR project (h project (Graph.get?_mem hproject).1 (.field "mainGroup") (Option.mem_toList.mpr href))

theorem IsPart.mainGroup (h : g₀.IsPart g) {main : Object} {main? : Option Object} (hmain : g₀.mainGroup = .ok (some main))
    (hmain' : g.mainGroup = .ok main?) : ∃ main', main? = some main' ∧ main'.id = main.id := by
  obtain ⟨s, project, hroot, hproject, hbind⟩ := mainGroup_eq_some_iff.mp hmain
  obtain ⟨ref, href, hget⟩ := Option.bind_eq_some_iff.mp hbind
  obtain ⟨project', hproject', hmain'⟩ := ok_of_bind hmain'
  obtain rfl := Except.ok.inj hmain'
  obtain ⟨p, hp, hnarrows⟩ := h.narrows.project hproject'
  obtain rfl := Except.ok.inj ((project_eq_ok_iff.mpr ⟨s, hroot, hproject⟩).symm.trans hp)
  obtain rfl := (Graph.get?_mem hget).2
  obtain ⟨main', hget'⟩ := exists_get?_of_mem (h.main main hmain)
  exact ⟨main', by rw [hnarrows.text? (by decide), href, Option.bind_some, hget'], (Graph.get?_mem hget').2⟩

/-- A group of a name in the main group was one before. -/
theorem Narrows.isUnder (h : g.Narrows lost g') (hunder : g'.IsUnder fits o') : ∃ o, g.IsUnder fits o ∧ o.Narrows lost o' := by
  obtain ⟨main', ref, hmain', href, hget', hisa, hfits⟩ := hunder
  obtain ⟨main, hmain, hwas⟩ := h.mainGroup hmain'
  obtain ⟨o, hget, hnarrows⟩ := h.origin hget'
  exact ⟨o, ⟨main, ref, hmain, hwas.held (.item "children") href, hget, by rw [← hnarrows.isa, hisa],
    by rw [← hnarrows.label?, hfits]⟩, hnarrows⟩

theorem mem_ids_remove {ref : String} : ref ∈ ((Change.remove id).apply g).ids ↔ ref ≠ id ∧ ref ∈ g.ids := by
  have hget : ((Change.remove id).apply g).get? ref = if ref = id then none else g.get? ref :=
    Change.get?_removeObject g id ref
  rw [← not_iff_not, ← Graph.get?_eq_none_iff, hget]
  split
  next heq => simp [heq]
  next hne => simp [Graph.get?_eq_none_iff, hne]

/-- An object that nothing refers to any more is taken out. -/
theorem IsPart.remove {g₁ : Graph} {R : Object → Place → Prop} (h : g₀.IsPart g) (hdetached : Detached id g g₁)
    (honly : g₀.HeldOnly id R) (hR : ∀ o, ¬R o (.field "mainGroup"))
    (hfree : ∀ o₀ ∈ g₀.objects, ∀ o ∈ g₁.objects, o.id = o₀.id → o.isa = o₀.isa → ∀ place, R o₀ place → id ∉ o.held place) :
    g₀.IsPart ((Change.remove id).apply g₁) := by
  have hpart : g₀.Narrows (fun ref => ref ∉ g.ids ∨ ref = id) g₁ :=
    (h.narrows.mono fun _ => .inl).trans (hdetached.narrows.mono fun _ => .inr)
  have hnobody : ∀ o ∈ g₁.objects, ∀ place, id ∉ o.held place := by
    intro o ho place hin
    obtain ⟨o₀, ho₀, hwas, hplace⟩ := honly.of_narrows hpart hdetached.indexed.nodup ho hin
    exact hfree o₀ ho₀ o ho hwas.id hwas.isa place hplace hin
  refine ⟨(hpart.trans (narrows_removeObject _ g₁ id)).mono fun ref hlost hin => ?_, fun o ho place hplace ref hin => ?_,
    hdetached.indexed.removeObject id, fun main hmain => ?_⟩
  · obtain ⟨hne, hin⟩ := mem_ids_remove.mp hin
    rw [hdetached.ids] at hin
    exact hlost.elim (fun hout => hout hin) hne
  · obtain ⟨o₁, ho₁, hsame⟩ := (narrows_removeObject (fun _ => False) g₁ id).exists_origin ho
      (hdetached.indexed.removeObject id).nodup
    have hin₁ := hsame.held place hin
    refine mem_ids_remove.mpr ⟨?_, ?_⟩
    · rintro rfl
      exact hnobody o₁ ho₁ place hin₁
    · obtain ⟨o', ho', hwas⟩ := hdetached.narrows.exists_origin ho₁ hdetached.indexed.nodup
      rw [hdetached.ids]
      exact h.closed o' ho' place hplace ref (hwas.held place hin₁)
  · exact mem_ids_remove.mpr ⟨(honly.ne_main hR hmain).symm, by rw [hdetached.ids]; exact h.main main hmain⟩

/-- Settings refer to nothing. -/
theorem IsPart.removeSetting (h : g₀.IsPart g) (configuration name value : String) :
    g₀.IsPart ((Change.removeSetting configuration name value).apply g) := by
  have hnarrows (lost : String → Prop) : g.Narrows lost ((Change.removeSetting configuration name value).apply g) :=
    narrows_changeSettings _ _
  have hids : ((Change.removeSetting configuration name value).apply g).ids = g.ids := ids_apply_of_writes rfl g
  have hindexed : ((Change.removeSetting configuration name value).apply g).IsIndexed :=
    h.indexed.apply_writing rfl (by decide)
  refine ⟨?_, fun o ho place hplace id hin => ?_, hindexed, fun main hmain => by rw [hids]; exact h.main main hmain⟩
  · rw [hids]
    exact h.narrows.trans (hnarrows _)
  · obtain ⟨o', ho', hwas⟩ := (hnarrows fun _ => False).exists_origin ho hindexed.nodup
    rw [hids]
    exact h.closed o' ho' place hplace id (hwas.held place hin)

/-! ## Reading again -/

theorem projectRef?_tidy (v : Value) : projectRef? v.tidy = projectRef? v := by
  cases v with
  | scalar s => rfl
  | list items => rw [Value.tidy_list]; rfl
  | dict d =>
    rw [Value.tidy_dict, projectRef?, projectRef?, Dict.get?_tidy]
    rcases d.get? "ProjectRef" with _ | ⟨s | items | d⟩
    · rfl
    · rw [Option.map_some, Value.tidy_scalar]
    · rw [Option.map_some, Value.tidy_list]
    · rw [Option.map_some, Value.tidy_dict]

theorem held_tidy (place : Place) : o.tidy.held place = o.held place := by
  cases place with
  | item key => rw [Object.held, Object.held, Object.refs, Object.refs, refScalars_tidy]
  | field key => rw [Object.held, Object.held, text?_tidy]
  | entry =>
    have hrefs : o.tidy.projectRefs = o.projectRefs := by
      rw [Object.projectRefs, Object.projectRefs, Object.field?_tidy]
      rcases o.field? "projectReferences" with _ | ⟨s | items | d⟩
      · rfl
      · rw [Option.map_some, Value.tidy_scalar]
      · rw [Option.map_some, Value.tidy_list]
        show (items.map Value.tidy).filterMap projectRef? = _
        rw [List.filterMap_map]
        exact List.filterMap_congr fun v _ => projectRef?_tidy v
      · rw [Option.map_some, Value.tidy_dict]
    rw [Object.held, Object.held, hrefs]

/-- A graph that was written and is read again refers to what it referred to. -/
theorem IsClosed.of_matches (h : g.IsClosed) (hmatches : Matches g g') (hnodup : g'.ids.Nodup) : g'.IsClosed := by
  intro o' ho' place hplace id hin
  have hget := Graph.get?_of_mem hnodup ho'
  rw [hmatches.get?] at hget
  obtain ⟨o, hget, rfl⟩ := Option.map_eq_some_iff.mp hget
  exact hmatches.ids.mem_iff.mpr (h o (Graph.get?_mem hget).1 place hplace id (held_tidy place ▸ hin))

end Graph
end Xcode
end ModuleLink
