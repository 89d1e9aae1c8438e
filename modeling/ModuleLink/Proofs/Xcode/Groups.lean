import ModuleLink.Proofs.Xcode.Reload

/-!
The groups in the main group of a project that bear a name, and what becomes of them when the project is changed.  An
object that is added can only be such a group if it is one itself; otherwise the first group of the name stays the first
one, and its entries stay where they are.
-/

namespace ModuleLink
namespace Xcode

open Plist

/-! ## Objects that change -/

namespace Object

variable {o : Object} {key k ref : String} {v : Value} {R : List Scalar → List Scalar → Prop}

theorem field?_setField_of_ne (h : k ≠ key) (v : Value) : (o.setField key v).field? k = o.field? k :=
  Dict.lookup_assign_of_ne h v _

theorem field?_setField_self (v : Value) : (o.setField key v).field? key = some v :=
  Dict.lookup_assign_self key v _

theorem text?_setField_of_ne (h : k ≠ key) (v : Value) : (o.setField key v).text? k = o.text? k := by
  rw [text?, text?, field?_setField_of_ne h]

theorem refScalars_setField_of_ne (h : k ≠ key) (v : Value) : (o.setField key v).refScalars k = o.refScalars k := by
  rw [refScalars, refScalars, field?_setField_of_ne h]

theorem refScalars_setField_self (items : List Value) :
    (o.setField key (.list items)).refScalars key = items.filterMap Value.asScalar? := by
  rw [refScalars, field?_setField_self]

theorem filterMap_listField (o : Object) (key : String) :
    (o.listField key).filterMap Value.asScalar? = o.refScalars key := by
  rw [listField, refScalars]
  rcases o.field? key with _ | v
  · rfl
  · cases v <;> rfl

/-- What an object is, whatever becomes of its children. -/
structure Becomes (R : List Scalar → List Scalar → Prop) (o o' : Object) : Prop where
  id : o'.id = o.id
  isa : o'.isa = o.isa
  label : o'.label? = o.label?
  mainGroup : o'.text? "mainGroup" = o.text? "mainGroup"
  children : R (o.refScalars "children") (o'.refScalars "children")

/-- The object has the children it had in front of others. -/
abbrev Extends : Object → Object → Prop := Becomes (· <+: ·)

/-- The object has only children that it had. -/
abbrev Restricts : Object → Object → Prop := Becomes fun a b => b ⊆ a

theorem extends_refl (o : Object) : o.Extends o := ⟨rfl, rfl, rfl, rfl, List.prefix_rfl⟩

theorem restricts_refl (o : Object) : o.Restricts o := ⟨rfl, rfl, rfl, rfl, List.Subset.refl _⟩

/-- The fields that say what an object is. -/
def faceKeys : List String := ["isa", "name", "path", "mainGroup"]

theorem becomes_setField (hkey : key ∉ faceKeys)
    (hchildren : R (o.refScalars "children") ((o.setField key v).refScalars "children")) :
    o.Becomes R (o.setField key v) := by
  simp only [faceKeys, List.mem_cons, List.not_mem_nil, or_false, not_or] at hkey
  obtain ⟨hisa, hname, hpath, hmain⟩ := hkey
  refine ⟨rfl, isa_setField hisa v, ?_, text?_setField_of_ne (Ne.symm hmain) v, hchildren⟩
  rw [label?, label?, text?_setField_of_ne (Ne.symm hname), text?_setField_of_ne (Ne.symm hpath)]

theorem becomes_setField_of_ne (hR : ∀ l, R l l) (hkey : key ∉ "children" :: faceKeys) (v : Value) :
    o.Becomes R (o.setField key v) := by
  rw [List.mem_cons, not_or] at hkey
  refine becomes_setField hkey.2 ?_
  rw [refScalars_setField_of_ne (Ne.symm hkey.1)]
  exact hR _

theorem becomes_appendRef (hkey : key ∉ faceKeys) (s : Scalar) : o.Extends (o.appendRef key s) := by
  refine becomes_setField hkey ?_
  by_cases hchildren : "children" = key
  · subst hchildren
    rw [refScalars_setField_self, List.filterMap_append, filterMap_listField]
    exact List.prefix_append _ _
  · rw [refScalars_setField_of_ne hchildren]

theorem refScalars_appendRef_self (s : Scalar) : (o.appendRef key s).refScalars key = o.refScalars key ++ [s] := by
  rw [appendRef, refScalars_setField_self, List.filterMap_append, filterMap_listField]
  rfl

/-- The references that are left are those to other objects. -/
theorem refScalars_removeRef_self :
    (o.removeRef key ref).refScalars key = (o.refScalars key).filter fun s => s.value != ref := by
  have hitems (items : List Value) : (items.filter fun v => !v.isText ref).filterMap Value.asScalar? =
      (items.filterMap Value.asScalar?).filter fun s => s.value != ref := by
    induction items with
    | nil => rfl
    | cons v items ih =>
      cases v with
      | scalar s =>
        have hscalar : Value.asScalar? (.scalar s) = some s := rfl
        have htext : (Value.scalar s).isText ref = (s.value == ref) := rfl
        by_cases hs : s.value = ref
        · rw [List.filter_cons_of_neg (by simp [htext, hs]), List.filterMap_cons_some hscalar,
            List.filter_cons_of_neg (by simp [hs]), ih]
        · rw [List.filter_cons_of_pos (by simp [htext, hs]), List.filterMap_cons_some hscalar,
            List.filterMap_cons_some hscalar, List.filter_cons_of_pos (by simp [hs]), ih]
      | list vs =>
        rw [List.filter_cons_of_pos (by rfl), List.filterMap_cons_none rfl, List.filterMap_cons_none rfl, ih]
      | dict d =>
        rw [List.filter_cons_of_pos (by rfl), List.filterMap_cons_none rfl, List.filterMap_cons_none rfl, ih]
  rw [removeRef]
  split
  · rw [refScalars_setField_self, hitems, filterMap_listField]
  next hno =>
    refine (List.filter_eq_self.mpr fun s hs => ?_).symm
    rw [bne_iff_ne]
    rintro rfl
    exact hno (List.contains_iff_mem.mpr (List.mem_map_of_mem hs))

theorem id_removeRef (o : Object) (key ref : String) : (o.removeRef key ref).id = o.id := by
  rw [removeRef]
  split <;> rfl

theorem becomes_removeRef (hkey : key ∉ faceKeys) (ref : String) :
    o.Restricts (o.removeRef key ref) := by
  rw [removeRef]
  split
  next href =>
    have hself : (o.removeRef key ref).refScalars key = (o.refScalars key).filter fun s => s.value != ref :=
      refScalars_removeRef_self
    rw [removeRef, if_pos href] at hself
    refine becomes_setField hkey ?_
    by_cases hchildren : "children" = key
    · subst hchildren
      rw [hself]
      exact List.filter_subset_self _
    · rw [refScalars_setField_of_ne hchildren]
      exact List.Subset.refl _
  · exact restricts_refl o

end Object

/-! ## Graphs that change -/

namespace Graph

variable {g g' : Graph} {o o' main group : Object} {fits : Option String → Bool} {id : String}

theorem get?_store (g : Graph) (o : Object) (id : String) :
    (g.store o).get? id = (g.get? id).map fun p => if p.id == o.id then o else p := by
  have hid : (fun p : Object => (if p.id == o.id then o else p).id == id) = fun p => p.id == id := by
    funext p
    split
    next h => rw [eq_of_beq h]
    · rfl
  rw [get?, store, List.find?_map]
  show ((g.objects.find? fun p => (if p.id == o.id then o else p).id == id).map _) = _
  rw [hid]
  rfl

theorem get?_touch (g : Graph) (owner id : String) : (g.touch owner).get? id = g.get? id := by
  rw [touch_eq]
  rfl

theorem root_touch (g : Graph) (owner : String) : (g.touch owner).root = g.root := by
  rw [touch_eq]

/-- An object that takes the place of the one with its id is found by the id, and every other one as before. -/
theorem get?_store_touch (hget : g.get? o.id = some o) (hid : o'.id = o.id) (id : String) :
    ((g.store o').touch o.id).get? id = if id = o.id then some o' else g.get? id := by
  rw [get?_touch, get?_store]
  by_cases h : id = o.id
  · rw [if_pos h, h, hget, Option.map_some, if_pos (beq_iff_eq.mpr hid.symm)]
  · rw [if_neg h]
    cases hp : g.get? id with
    | none => rfl
    | some p =>
      have hne : p.id ≠ o'.id := by
        rw [hid, (get?_mem hp).2]
        exact h
      rw [Option.map_some, if_neg (by simpa using hne)]

/-- The owner is the only object that another reference changes. -/
theorem get?_appendRef (key ref : String) (comment : Option String) {owner : String} (hget : g.get? owner = some o)
    (id : String) :
    (g.appendRef owner key ref comment).1.get? id =
      if id = owner then some (if o.hasRef key ref then o else o.appendRef key ⟨ref, comment⟩) else g.get? id := by
  obtain ⟨-, rfl⟩ := get?_mem hget
  rw [appendRef, hget]
  simp only
  split
  · split
    next hid => rw [hid, hget]
    · rfl
  · exact get?_store_touch hget (show (o.appendRef key ⟨ref, comment⟩).id = o.id from rfl) id

theorem project_eq_ok_iff {project : Object} : g.project = .ok project ↔
    ∃ s, g.root.get? "rootObject" = some (.scalar s) ∧ g.get? s.value = some project := by
  constructor
  · intro hproject
    rw [Graph.project] at hproject
    cases hroot : g.root.get? "rootObject" with
    | none => simp [hroot] at hproject
    | some v =>
      cases v with
      | scalar s =>
        cases hget : g.get? s.value with
        | none => simp [hroot, hget] at hproject
        | some p =>
          simp only [hroot, hget, Except.ok.injEq] at hproject
          subst hproject
          exact ⟨s, rfl, hget⟩
      | list items => simp [hroot] at hproject
      | dict d => simp [hroot] at hproject
  · rintro ⟨s, hroot, hget⟩
    simp [Graph.project, hroot, hget]

theorem mainGroup_eq_some_iff : g.mainGroup = .ok (some main) ↔
    ∃ s project, g.root.get? "rootObject" = some (.scalar s) ∧ g.get? s.value = some project ∧
      (project.text? "mainGroup").bind g.get? = some main := by
  constructor
  · intro h
    obtain ⟨project, hproject, h⟩ := ok_of_bind h
    obtain ⟨s, hroot, hget⟩ := project_eq_ok_iff.mp hproject
    exact ⟨s, project, hroot, hget, Except.ok.inj h⟩
  · rintro ⟨s, project, hroot, hget, hmain⟩
    rw [Graph.mainGroup, bind_of_ok (project_eq_ok_iff.mpr ⟨s, hroot, hget⟩), hmain]

theorem get?_of_mainGroup (h : g.mainGroup = .ok (some main)) : g.get? main.id = some main := by
  obtain ⟨s, project, -, -, hbind⟩ := mainGroup_eq_some_iff.mp h
  obtain ⟨id, -, hget⟩ := Option.bind_eq_some_iff.mp hbind
  rw [(get?_mem hget).2, hget]

theorem findGroup_eq_some_iff : g.findGroup fits = .ok (some group) ↔
    ∃ main, g.mainGroup = .ok (some main) ∧ g.groupIn main fits = some group := by
  constructor
  · intro h
    obtain ⟨main, hmain, h⟩ := ok_of_bind h
    obtain ⟨m, rfl, hgroup⟩ := Option.bind_eq_some_iff.mp (Except.ok.inj h)
    exact ⟨m, hmain, hgroup⟩
  · rintro ⟨main, hmain, hgroup⟩
    rw [findGroup, bind_of_ok hmain, Option.bind_some, hgroup]

theorem get?_of_findGroup (h : g.findGroup fits = .ok (some group)) :
    g.get? group.id = some group ∧ group.isa = "PBXGroup" ∧ fits group.label? = true := by
  obtain ⟨main, -, hgroup⟩ := findGroup_eq_some_iff.mp h
  obtain ⟨ref, -, href⟩ := List.mem_filterMap.mp (List.mem_of_find?_eq_some hgroup)
  have hfits := List.find?_some hgroup
  rw [Bool.and_eq_true, beq_iff_eq] at hfits
  exact ⟨by rw [(get?_mem href).2, href], hfits⟩

/-! ### Growing -/

/-- Every object is still there, with the children it had in front of others, and no new one is a group with a fitting
label. -/
structure Grown (g : Graph) (fits : Option String → Bool) (g' : Graph) : Prop where
  root : g'.root.get? "rootObject" = g.root.get? "rootObject"
  kept : ∀ {id o}, g.get? id = some o → ∃ o', g'.get? id = some o' ∧ o.Extends o'
  fresh : ∀ {id o'}, g.get? id = none → g'.get? id = some o' → o'.isa = "PBXGroup" → fits o'.label? = false

theorem grown_of_get? (hroot : g'.root = g.root) (hget : ∀ id, g'.get? id = g.get? id) : g.Grown fits g' where
  root := by rw [hroot]
  kept {_ o} ho := ⟨o, by rw [hget, ho], Object.extends_refl o⟩
  fresh hnone hsome := by
    rw [hget, hnone] at hsome
    contradiction

theorem grown_refl (fits : Option String → Bool) (g : Graph) : g.Grown fits g := grown_of_get? rfl fun _ => rfl

/-- One object gets other fields. -/
theorem grown_store_touch (fits : Option String → Bool) (hget : g.get? o.id = some o)
    (h : o.Extends o') : g.Grown fits ((g.store o').touch o.id) where
  root := by rw [root_touch]; rfl
  kept {id p} hp := by
    rw [get?_store_touch hget h.id]
    by_cases hid : id = o.id
    · rw [hid, hget] at hp
      rw [← Option.some.inj hp]
      exact ⟨o', if_pos hid, h⟩
    · exact ⟨p, by rw [if_neg hid, hp], Object.extends_refl p⟩
  fresh {id p} hnone hsome := by
    rw [get?_store_touch hget h.id] at hsome
    by_cases hid : id = o.id
    · rw [hid, hget] at hnone
      contradiction
    · rw [if_neg hid, hnone] at hsome
      contradiction

theorem Grown.mainGroup (h : g.Grown fits g') (hmain : g.mainGroup = .ok (some main)) :
    ∃ main', g'.mainGroup = .ok (some main') ∧ main.Extends main' := by
  obtain ⟨s, project, hroot, hproject, hbind⟩ := mainGroup_eq_some_iff.mp hmain
  obtain ⟨id, hid, hget⟩ := Option.bind_eq_some_iff.mp hbind
  obtain ⟨project', hproject', hface⟩ := h.kept hproject
  obtain ⟨main', hget', hmain'⟩ := h.kept hget
  refine ⟨main', mainGroup_eq_some_iff.mpr ⟨s, project', by rw [h.root, hroot], hproject', ?_⟩, hmain'⟩
  rw [hface.mainGroup, hid, Option.bind_some, hget']

/-- The first group of the name stays the first one. -/
theorem Grown.find?_eq_some (h : g.Grown fits g') (refs more : List String)
    (hgroup : (refs.filterMap g.get?).find? (fun c => c.isa == "PBXGroup" && fits c.label?) = some group) :
    ∃ group', ((refs ++ more).filterMap g'.get?).find? (fun c => c.isa == "PBXGroup" && fits c.label?) = some group' ∧
      group.Extends group' := by
  induction refs with
  | nil => contradiction
  | cons ref refs ih =>
    rw [List.cons_append]
    cases hget : g.get? ref with
    | none =>
      rw [List.filterMap_cons_none hget] at hgroup
      cases hget' : g'.get? ref with
      | none =>
        rw [List.filterMap_cons_none hget']
        exact ih hgroup
      | some c' =>
        rw [List.filterMap_cons_some hget', List.find?_cons_of_neg]
        · exact ih hgroup
        · rw [Bool.and_eq_true, beq_iff_eq]
          rintro ⟨hisa, hfits⟩
          rw [h.fresh hget hget' hisa] at hfits
          contradiction
    | some c =>
      obtain ⟨c', hget', hc⟩ := h.kept hget
      rw [List.filterMap_cons_some hget] at hgroup
      rw [List.filterMap_cons_some hget']
      by_cases hfits : (c.isa == "PBXGroup" && fits c.label?) = true
      · rw [List.find?_cons_of_pos (by exact hfits)] at hgroup
        obtain rfl := Option.some.inj hgroup
        exact ⟨c', List.find?_cons_of_pos (by rw [hc.isa, hc.label]; exact hfits), hc⟩
      · rw [List.find?_cons_of_neg (by exact hfits)] at hgroup
        rw [List.find?_cons_of_neg (by rw [hc.isa, hc.label]; exact hfits)]
        exact ih hgroup

theorem Grown.findGroup (h : g.Grown fits g') (hgroup : g.findGroup fits = .ok (some group)) :
    ∃ group', g'.findGroup fits = .ok (some group') ∧ group.Extends group' := by
  obtain ⟨main, hmain, hin⟩ := findGroup_eq_some_iff.mp hgroup
  obtain ⟨main', hmain', hface⟩ := h.mainGroup hmain
  obtain ⟨more, hmore⟩ := hface.children
  obtain ⟨group', hin', hgroup'⟩ := h.find?_eq_some (main.refs "children") (more.map Scalar.value) hin
  refine ⟨group', findGroup_eq_some_iff.mpr ⟨main', hmain', ?_⟩, hgroup'⟩
  rw [groupIn, Object.refs, ← hmore, List.map_append]
  exact hin'

/-! ### Shrinking -/

/-- Every object was there before, with the children it has and perhaps others. -/
structure Shrunk (g g' : Graph) : Prop where
  root : g'.root.get? "rootObject" = g.root.get? "rootObject"
  origin : ∀ {id o'}, g'.get? id = some o' → ∃ o, g.get? id = some o ∧ o.Restricts o'

theorem shrunk_of_get? (hroot : g'.root = g.root) (hget : ∀ id, g'.get? id = g.get? id) : g.Shrunk g' where
  root := by rw [hroot]
  origin {id o} ho := ⟨o, by rw [← hget, ho], Object.restricts_refl o⟩

theorem shrunk_refl (g : Graph) : g.Shrunk g := shrunk_of_get? rfl fun _ => rfl

theorem shrunk_store_touch (hget : g.get? o.id = some o) (h : o.Restricts o') :
    g.Shrunk ((g.store o').touch o.id) where
  root := by rw [root_touch]; rfl
  origin {id p} hp := by
    rw [get?_store_touch hget h.id] at hp
    by_cases hid : id = o.id
    · rw [if_pos hid] at hp
      rw [← Option.some.inj hp]
      exact ⟨o, by rw [hid, hget], h⟩
    · rw [if_neg hid] at hp
      exact ⟨p, hp, Object.restricts_refl p⟩

theorem Shrunk.trans {g'' : Graph} (h : g.Shrunk g') (h' : g'.Shrunk g'') : g.Shrunk g'' where
  root := by rw [h'.root, h.root]
  origin hget := by
    obtain ⟨o', ho', hrestricts'⟩ := h'.origin hget
    obtain ⟨o, ho, hrestricts⟩ := h.origin ho'
    exact ⟨o, ho, hrestricts'.id.trans hrestricts.id, hrestricts'.isa.trans hrestricts.isa,
      hrestricts'.label.trans hrestricts.label, hrestricts'.mainGroup.trans hrestricts.mainGroup,
      List.Subset.trans hrestricts'.children hrestricts.children⟩

/-- The group is one of those in the main group that bear the name. -/
def IsUnder (g : Graph) (fits : Option String → Bool) (group : Object) : Prop :=
  ∃ main ref, g.mainGroup = .ok (some main) ∧ ref ∈ main.refs "children" ∧ g.get? ref = some group ∧
    group.isa = "PBXGroup" ∧ fits group.label? = true

theorem isUnder_of_findGroup (h : g.findGroup fits = .ok (some group)) : g.IsUnder fits group := by
  obtain ⟨main, hmain, hin⟩ := findGroup_eq_some_iff.mp h
  obtain ⟨ref, href, hget⟩ := List.mem_filterMap.mp (List.mem_of_find?_eq_some hin)
  exact ⟨main, ref, hmain, href, hget, (get?_of_findGroup h).2⟩

theorem IsUnder.get? (h : g.IsUnder fits group) : g.get? group.id = some group := by
  obtain ⟨main, ref, -, -, hget, -⟩ := h
  rw [(get?_mem hget).2, hget]

theorem Shrunk.isUnder (h : g.Shrunk g') (hgroup : g'.IsUnder fits o') :
    ∃ o, g.IsUnder fits o ∧ o.Restricts o' := by
  obtain ⟨main', ref, hmain', href, hget', hisa, hfits⟩ := hgroup
  obtain ⟨s, project', hroot, hproject', hbind⟩ := mainGroup_eq_some_iff.mp hmain'
  obtain ⟨id, hid, hmain'⟩ := Option.bind_eq_some_iff.mp hbind
  obtain ⟨project, hproject, hproject_face⟩ := h.origin hproject'
  obtain ⟨main, hmain, hmain_face⟩ := h.origin hmain'
  obtain ⟨o, hget, hface⟩ := h.origin hget'
  refine ⟨o, ⟨main, ref, ?_, ?_, hget, by rw [← hface.isa, hisa], by rw [← hface.label, hfits]⟩, hface⟩
  · refine mainGroup_eq_some_iff.mpr ⟨s, project, by rw [← h.root, hroot], hproject, ?_⟩
    rw [← hproject_face.mainGroup, hid, Option.bind_some, hmain]
  · exact List.map_subset _ hmain_face.children href

theorem Shrunk.project (h : g.Shrunk g') {project' : Object} (hproject' : g'.project = .ok project') :
    ∃ project, g.project = .ok project ∧ project.Restricts project' := by
  obtain ⟨s, hroot, hget'⟩ := project_eq_ok_iff.mp hproject'
  obtain ⟨project, hget, hrestricts⟩ := h.origin hget'
  exact ⟨project, project_eq_ok_iff.mpr ⟨s, by rw [← h.root, hroot], hget⟩, hrestricts⟩

/-- Entries of groups of the name that are marked with a comment are only where `R` lets them be. -/
def Marks (g : Graph) (fits : Option String → Bool) (comment : String) (R : String → String → Prop) : Prop :=
  ∀ o, g.IsUnder fits o → ∀ s ∈ o.refScalars "children", s.comment = some comment → R o.id s.value

/-- What is taken away marks nothing. -/
theorem Marks.shrunk {comment : String} {R : String → String → Prop} (h : g.Marks fits comment R)
    (hshrunk : g.Shrunk g') : g'.Marks fits comment R := by
  intro o' ho' s hs hcomment
  obtain ⟨o, ho, hrestricts⟩ := hshrunk.isUnder ho'
  rw [hrestricts.id]
  exact h o ho s (hrestricts.children hs) hcomment

/-- No reference to an object is left in a list that it was taken out of. -/
theorem ne_of_mem_removeRef {owner key ref : String} {s : Scalar} (hget : (g.removeRef owner key ref).1.get? owner = some o)
    (hs : s ∈ o.refScalars key) : s.value ≠ ref := by
  rw [removeRef] at hget
  split at hget
  next hnone =>
    rw [hnone] at hget
    contradiction
  next p hp =>
    obtain ⟨-, rfl⟩ := get?_mem hp
    split at hget
    · rw [get?_store_touch hp (Object.id_removeRef p key ref),
        if_pos rfl] at hget
      obtain rfl := Option.some.inj hget
      rw [Object.refScalars_removeRef_self] at hs
      exact bne_iff_ne.mp (List.mem_filter.mp hs).2
    next href =>
      rw [hp] at hget
      obtain rfl := Option.some.inj hget
      rintro rfl
      exact href (List.contains_iff_mem.mpr (List.mem_map_of_mem hs))

/-- An object that is taken out of lists is still there. -/
theorem exists_get?_removeRef (owner key ref : String) (hget : g.get? id = some o) :
    ∃ o', (g.removeRef owner key ref).1.get? id = some o' := by
  rw [removeRef]
  split
  · exact ⟨o, hget⟩
  next p hp =>
    obtain ⟨-, rfl⟩ := get?_mem hp
    split
    · rw [get?_store_touch hp (Object.id_removeRef p key ref)]
      split
      · exact ⟨_, rfl⟩
      · exact ⟨o, hget⟩
    · exact ⟨o, hget⟩

theorem Grown.project (h : g.Grown fits g') {project : Object} (hproject : g.project = .ok project) :
    ∃ project', g'.project = .ok project' := by
  obtain ⟨s, hroot, hget⟩ := project_eq_ok_iff.mp hproject
  obtain ⟨project', hget', -⟩ := h.kept hget
  exact ⟨project', project_eq_ok_iff.mpr ⟨s, by rw [h.root, hroot], hget'⟩⟩

/-! ### Reading back -/

theorem text?_tidy (o : Object) (k : String) : o.tidy.text? k = o.text? k := by
  rw [Object.text?, Object.text?, Object.field?, Object.field?, Object.tidy, Dict.get?_tidy]
  rcases o.fields.get? k with _ | v
  · rfl
  · cases v with
    | scalar s => rw [Option.map_some, Value.tidy_scalar]
    | list items => rw [Option.map_some, Value.tidy_list]
    | dict d => rw [Option.map_some, Value.tidy_dict]

theorem refScalars_tidy (o : Object) (k : String) : o.tidy.refScalars k = o.refScalars k := by
  have hitems (items : List Value) :
      (items.map Value.tidy).filterMap Value.asScalar? = items.filterMap Value.asScalar? := by
    rw [List.filterMap_map]
    refine List.filterMap_congr fun v _ => ?_
    cases v with
    | scalar s => rw [Function.comp_apply, Value.tidy_scalar]
    | list items => rw [Function.comp_apply, Value.tidy_list]; rfl
    | dict d => rw [Function.comp_apply, Value.tidy_dict]; rfl
  rw [Object.refScalars, Object.refScalars, Object.field?, Object.field?, Object.tidy, Dict.get?_tidy]
  rcases o.fields.get? k with _ | v
  · rfl
  · cases v with
    | scalar s => rw [Option.map_some, Value.tidy_scalar]
    | list items =>
      rw [Option.map_some, Value.tidy_list]
      exact hitems items
    | dict d => rw [Option.map_some, Value.tidy_dict]

theorem becomes_tidy {R : List Scalar → List Scalar → Prop} (hR : ∀ l, R l l) (o : Object) : o.Becomes R o.tidy where
  id := rfl
  isa := by rw [Object.isa, Object.isa, text?_tidy]
  label := by rw [Object.label?, Object.label?, text?_tidy, text?_tidy]
  mainGroup := text?_tidy o _
  children := by
    rw [refScalars_tidy]
    exact hR _

/-! ### Graphs that were not changed -/

/-- A graph that was changed to no avail holds what it held. -/
theorem get?_of_unmodified {g₀ : Graph} (h : Follows g₀ g) (hunmodified : g.isModified = false)
    (id : String) : g.get? id = g₀.get? id := by
  simp only [isModified, Bool.not_eq_false', Bool.and_eq_true, List.isEmpty_iff] at hunmodified
  obtain ⟨⟨hadded, hremoved⟩, htouched⟩ := hunmodified
  have hkept : ∀ o ∈ g₀.objects, g.get? o.id = some o := by
    intro o ho
    obtain ⟨-, p, hp, -, hsame⟩ := h.kept o ho (by simp [hremoved])
    obtain rfl := hsame (by simp [htouched])
    exact get?_of_mem h.nodup hp
  cases hget : g₀.get? id with
  | some o =>
    obtain ⟨ho, rfl⟩ := get?_mem hget
    exact hkept o ho
  | none =>
    cases hget' : g.get? id with
    | none => rfl
    | some p =>
      obtain ⟨hp, rfl⟩ := get?_mem hget'
      rcases h.origin p hp with hin | ⟨hin, -⟩
      · simp [hadded] at hin
      · exact absurd hin (get?_eq_none_iff.mp hget)

theorem root_of_follows {g₀ : Graph} (h : Follows g₀ g) : g.root = g₀.root := by
  rw [h.frame]

end Graph

section Matches

variable {g g' : Graph}

theorem Matches.root_eq (h : Matches g g') : g'.root.get? "rootObject" = g.root.get? "rootObject" :=
  h.root.2 _ (by decide)

/-- A graph that is read back has not lost anything. -/
theorem Matches.grown (h : Matches g g') (fits : Option String → Bool) : g.Grown fits g' where
  root := h.root_eq
  kept {id o} hget := ⟨o.tidy, by rw [h.get?, hget]; rfl, Graph.becomes_tidy (fun _ => List.prefix_rfl) o⟩
  fresh {id o'} hnone hsome := by
    rw [h.get?, hnone] at hsome
    contradiction

/-- A graph that is read back has not gained anything. -/
theorem Matches.shrunk (h : Matches g g') : g.Shrunk g' where
  root := h.root_eq
  origin {id o'} hget := by
    rw [h.get?] at hget
    obtain ⟨o, ho, rfl⟩ := Option.map_eq_some_iff.mp hget
    have hrestricts : o.Restricts o.tidy := Graph.becomes_tidy (R := fun a b => b ⊆ a) List.Subset.refl o
    exact ⟨o, ho, hrestricts⟩

end Matches

/-! ## New objects -/

section Added

variable {g g' : Graph} {o : Object} {isa seed : String} {fields : List (String × Draft)} {comment : Option String}
  {vs : List (String × Value)} {k : String} {v : Value}

theorem get?_foldl_set_of_notMem (h : k ∉ vs.map (·.1)) (d : Dict Value) :
    (vs.foldl (fun (d : Dict Value) f => d.set f.1 f.2) d).get? k = d.get? k := by
  induction vs generalizing d with
  | nil => rfl
  | cons f vs ih =>
    rw [List.map_cons, List.mem_cons, not_or] at h
    rw [List.foldl_cons, ih h.2]
    exact Dict.lookup_assign_of_ne h.1 _ _

theorem get?_foldl_set_of_mem (hnodup : (vs.map (·.1)).Nodup) (h : (k, v) ∈ vs) (d : Dict Value) :
    (vs.foldl (fun (d : Dict Value) f => d.set f.1 f.2) d).get? k = some v := by
  induction vs generalizing d with
  | nil => contradiction
  | cons f vs ih =>
    rw [List.map_cons, List.nodup_cons] at hnodup
    rw [List.foldl_cons]
    rcases List.mem_cons.mp h with rfl | hmem
    · rw [get?_foldl_set_of_notMem hnodup.1]
      exact Dict.lookup_assign_self _ _ _
    · exact ih hnodup.2 hmem _

/-- The values of fields stand under the keys of the fields. -/
theorem values_of_mapM {fs : List (String × Draft)}
    (h : (fs.mapM fun (key, d) => do let v ← Draft.value d; Except.ok (ε := Fault) (key, v)) = .ok vs) :
    vs.map (·.1) = fs.map (·.1) ∧ ∀ f ∈ fs, ∃ v, f.2.value = .ok v ∧ (f.1, v) ∈ vs := by
  have hall := forall₂_of_mapM h
  clear h
  induction hall with
  | nil => simp
  | @cons f e fs vs hfe _ ih =>
    obtain ⟨v, hv, hpair⟩ := ok_of_bind hfe
    obtain rfl := Except.ok.inj hpair
    refine ⟨by rw [List.map_cons, List.map_cons, ih.1], ?_⟩
    rw [List.forall_mem_cons]
    refine ⟨⟨v, hv, by simp⟩, fun f' hf' => ?_⟩
    obtain ⟨w, hw, hmem⟩ := ih.2 f' hf'
    exact ⟨w, hw, by simp [hmem]⟩

/-- A new object has the fields that it is made with, and no others but its kind. -/
theorem field?_added (h : g.addObject isa fields comment seed = .ok (g', o)) (hnodup : (fields.map (·.1)).Nodup) :
    (∀ f ∈ fields, ∃ v, f.2.value = .ok v ∧ o.field? f.1 = some v) ∧
      ∀ k, k ≠ "isa" → k ∉ fields.map (·.1) → o.field? k = none := by
  obtain ⟨values, hvalues, h⟩ := ok_of_bind h
  obtain ⟨-, rfl⟩ := Prod.mk.inj (Except.ok.inj h)
  rw [Dict.foldl_assign_of_nodup (f := Prod.fst) Prod.snd hnodup, List.map_id'' (fun f => rfl)] at hvalues
  have hperm := List.mergeSort_perm fields fun a b => decide (a.1 ≤ b.1)
  obtain ⟨hkeys, hmem⟩ := values_of_mapM hvalues
  have hkeys_perm : (values.map (·.1)).Perm (fields.map (·.1)) := by
    rw [hkeys]
    exact hperm.map _
  refine ⟨fun f hf => ?_, fun k hne hk => ?_⟩
  · obtain ⟨v, hv, hin⟩ := hmem f (hperm.mem_iff.mpr hf)
    exact ⟨v, hv, get?_foldl_set_of_mem (hkeys_perm.nodup_iff.mpr hnodup) hin _⟩
  · show Dict.get? _ k = none
    rw [get?_foldl_set_of_notMem fun hin => hk (hkeys_perm.mem_iff.mp hin)]
    exact Entries.lookup_cons_of_ne hne _ _

end Added

/-! ## Changes -/

namespace Change

variable {g : Graph} {fits : Option String → Bool}

/-- The change adds something, but no group with a fitting label. -/
def IsAdding (fits : Option String → Bool) : Change → Prop
  | .add isa fields comment seed =>
    ∀ g g' o, Graph.addObject g isa fields comment seed = .ok (g', o) → o.isa = "PBXGroup" → fits o.label? = false
  | .appendRef _ key _ _ => key ∉ Object.faceKeys
  | .addSetting .. => True
  | _ => False

/-- The change takes something away. -/
def IsRemoving : Change → Prop
  | .remove _ => True
  | .removeRef _ key _ => key ∉ Object.faceKeys
  | .removeSetting .. => True
  | _ => False

theorem get?_addObject {isa seed : String} {fields : List (String × Draft)} {comment : Option String} {g' : Graph}
    {o : Object} (h : g.addObject isa fields comment seed = .ok (g', o)) (id : String) :
    g'.get? id = (g.get? id).or (if id = o.id then some o else none) := by
  obtain ⟨values, -, h⟩ := ok_of_bind h
  obtain ⟨rfl, rfl⟩ := Prod.mk.inj (Except.ok.inj h)
  simp only [Graph.get?, List.find?_append]
  congr 1
  by_cases hid : id = g.newId seed
  · rw [if_pos hid, List.find?_cons_of_pos (by simp [hid])]
  · rw [if_neg hid, List.find?_cons_of_neg (by simpa using Ne.symm hid), List.find?_nil]

theorem grown_changeSettings (fits : Option String → Bool) (configuration : String)
    (change : Dict Value → Option (Dict Value)) : g.Grown fits (g.changeSettings configuration change).1 := by
  rcases g.changeSettings_eq_or_store configuration change with hsame | ⟨o, settings, changed, -, hget, -, -, hchanged⟩
  · rw [hsame]
    exact Graph.grown_refl fits g
  · rw [hchanged]
    exact Graph.grown_store_touch fits hget (Object.becomes_setField_of_ne (fun _ => List.prefix_rfl) (by decide) _)

/-- What adds to a graph makes it grow. -/
theorem grown_apply {c : Change} (hc : c.IsAdding fits) : g.Grown fits (c.apply g) := by
  cases c with
  | add isa fields comment seed =>
    simp only [Change.apply]
    split
    next g' o hadd =>
      have hget := get?_addObject hadd
      refine ⟨?_, fun {id p} hp => ⟨p, by rw [hget, hp]; rfl, Object.extends_refl p⟩, fun {id p} hnone hsome hisa => ?_⟩
      · obtain ⟨values, -, hadd⟩ := ok_of_bind hadd
        obtain ⟨rfl, -⟩ := Prod.mk.inj (Except.ok.inj hadd)
        rfl
      · rw [hget, hnone, Option.none_or] at hsome
        split at hsome
        · obtain rfl := Option.some.inj hsome
          exact hc g g' o hadd hisa
        · contradiction
    · exact Graph.grown_refl fits g
  | appendRef owner key ref comment =>
    show g.Grown fits (g.appendRef owner key ref comment).1
    rcases g.appendRef_eq_or_store owner key ref comment with hsame | ⟨o, -, hget, hchanged⟩
    · rw [hsame]
      exact Graph.grown_refl fits g
    · rw [hchanged]
      exact Graph.grown_store_touch fits hget (Object.becomes_appendRef hc _)
  | addSetting configuration name value inherited => exact grown_changeSettings fits _ _
  | remove | touch | removeRef | removeSetting => exact absurd hc (by simp [IsAdding])

theorem get?_removeObject (g : Graph) (id id' : String) :
    (g.removeObject id).1.get? id' = if id' = id then none else g.get? id' := by
  have hfilter : (g.objects.filter fun p => p.id != id).find? (·.id == id') = if id' = id then none else g.get? id' := by
    rw [List.find?_filter]
    by_cases hid : id' = id
    · rw [if_pos hid, List.find?_eq_none]
      intro p _
      simp [hid]
    · rw [if_neg hid, Graph.get?]
      congr 1
      funext p
      by_cases hp : p.id = id'
      · simp [hp, hid]
      · simp [hp]
  rw [Graph.removeObject]
  split
  next hnone =>
    by_cases hid : id' = id
    · rw [if_pos hid, hid, hnone]
    · rw [if_neg hid]
  · rw [← hfilter]
    simp only
    split <;> rfl

theorem root_removeObject (g : Graph) (id : String) : (g.removeObject id).1.root = g.root := by
  rw [Graph.removeObject]
  split
  · rfl
  · simp only
    split <;> rfl

theorem shrunk_changeSettings (configuration : String) (change : Dict Value → Option (Dict Value)) :
    g.Shrunk (g.changeSettings configuration change).1 := by
  rcases g.changeSettings_eq_or_store configuration change with hsame | ⟨o, settings, changed, -, hget, -, -, hchanged⟩
  · rw [hsame]
    exact Graph.shrunk_refl g
  · rw [hchanged]
    refine Graph.shrunk_store_touch hget ?_
    exact Object.becomes_setField_of_ne (R := fun a b => b ⊆ a) List.Subset.refl (by decide) _

/-- What takes away from a graph makes it shrink. -/
theorem shrunk_apply {c : Change} (hc : c.IsRemoving) : g.Shrunk (c.apply g) := by
  cases c with
  | remove id =>
    refine ⟨congrArg (·.get? "rootObject") (root_removeObject g id), fun {id' o} hget => ?_⟩
    rw [show (Change.remove id).apply g = (g.removeObject id).1 from rfl, get?_removeObject] at hget
    split at hget
    · contradiction
    · exact ⟨o, hget, Object.restricts_refl o⟩
  | removeRef owner key ref =>
    show g.Shrunk (g.removeRef owner key ref).1
    rcases g.removeRef_eq_or_store owner key ref with hsame | ⟨o, -, hget, -, hchanged⟩
    · rw [hsame]
      exact Graph.shrunk_refl g
    · rw [hchanged]
      exact Graph.shrunk_store_touch hget (Object.becomes_removeRef hc _)
  | removeSetting configuration name value => exact shrunk_changeSettings _ _
  | add | touch | appendRef | addSetting => exact absurd hc (by simp [IsRemoving])

end Change

end Xcode
end ModuleLink
