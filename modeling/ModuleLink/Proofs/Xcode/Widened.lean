import ModuleLink.Proofs.Xcode.Indexed

/-!
Graphs that gain groups, files and build files, and entries in the lists of what they had.  The targets of the project
stay the same, and so do their phases.
-/

namespace ModuleLink
namespace Xcode

open Plist

/-- The fields that may get longer. -/
def listKeys : List String := ["children", "files", "buildSettings"]

/-- The kinds of what is gained. -/
def gainedKinds : List String := ["PBXGroup", "PBXFileReference", "PBXBuildFile"]

/-- The object is what it was but for its lists, and lists no fewer files. -/
structure Object.Widens (o o' : Object) : Prop where
  id : o'.id = o.id
  fields : ∀ k, k ∉ listKeys → o'.field? k = o.field? k
  files : ∀ ref ∈ o.refs "files", ref ∈ o'.refs "files"

namespace Object

variable {o o' o'' : Object}

theorem widens_refl (o : Object) : o.Widens o := ⟨rfl, fun _ _ => rfl, fun _ h => h⟩

theorem Widens.trans (h : o.Widens o') (h' : o'.Widens o'') : o.Widens o'' where
  id := h'.id.trans h.id
  fields k hk := (h'.fields k hk).trans (h.fields k hk)
  files ref href := h'.files ref (h.files ref href)

theorem Widens.text? (h : o.Widens o') {k : String} (hk : k ∉ listKeys) : o'.text? k = o.text? k := by
  rw [Object.text?, Object.text?, h.fields k hk]

theorem Widens.isa (h : o.Widens o') : o'.isa = o.isa := by rw [Object.isa, Object.isa, h.text? (by decide)]

theorem Widens.refs (h : o.Widens o') {k : String} (hk : k ∉ listKeys) : o'.refs k = o.refs k := by
  rw [Object.refs, Object.refs, refScalars, refScalars, h.fields k hk]

theorem widens_setField {key : String} (hkey : key ∈ listKeys) (hfiles : key ≠ "files") (v : Value) :
    o.Widens (o.setField key v) where
  id := rfl
  fields k hk := field?_setField_of_ne (by rintro rfl; exact hk hkey) v
  files ref href := by
    rw [Object.refs, refScalars_setField_of_ne (Ne.symm hfiles)]
    exact href

theorem widens_appendRef {key : String} (hkey : key ∈ listKeys) (s : Scalar) : o.Widens (o.appendRef key s) where
  id := rfl
  fields k hk := field?_setField_of_ne (by rintro rfl; exact hk hkey) _
  files ref href := by
    by_cases hfiles : "files" = key
    · subst hfiles
      rw [Object.refs, refScalars_appendRef_self, List.map_append]
      exact List.mem_append_left _ href
    · rw [Object.refs, appendRef, refScalars_setField_of_ne hfiles]
      exact href

end Object

namespace Graph

/-- Every object is still there but for its lists, and the others are groups, files and build files. -/
structure Widens (g g' : Graph) : Prop where
  root : g'.root = g.root
  kept : ∀ {id o}, g.get? id = some o → ∃ o', g'.get? id = some o' ∧ o.Widens o'
  fresh : ∀ {id o}, g.get? id = none → g'.get? id = some o → o.isa ∈ gainedKinds

variable {g g' g'' : Graph} {o o' : Object}

theorem widens_refl (g : Graph) : g.Widens g where
  root := rfl
  kept {_ o} ho := ⟨o, ho, o.widens_refl⟩
  fresh hnone hsome := by
    rw [hnone] at hsome
    contradiction

theorem Widens.trans (h : g.Widens g') (h' : g'.Widens g'') : g.Widens g'' where
  root := h'.root.trans h.root
  kept ho := by
    obtain ⟨o', ho', hwide⟩ := h.kept ho
    obtain ⟨o'', ho'', hwide'⟩ := h'.kept ho'
    exact ⟨o'', ho'', hwide.trans hwide'⟩
  fresh {id o} hnone hsome := by
    cases hmid : g'.get? id with
    | none => exact h'.fresh hmid hsome
    | some p =>
      obtain ⟨p', hp', hwide⟩ := h'.kept hmid
      obtain rfl := Option.some.inj (hp'.symm.trans hsome)
      rw [hwide.isa]
      exact h.fresh hnone hmid

/-! ## Steps -/

theorem widens_addObject {isa seed : String} {fields : List (String × Draft)} {comment : Option String}
    (hadd : g.addObject isa fields comment seed = .ok (g', o)) (hkind : o.isa ∈ gainedKinds) : g.Widens g' where
  root := by
    obtain ⟨values, -, hmade⟩ := ok_of_bind hadd
    obtain ⟨rfl, -⟩ := Prod.mk.inj (Except.ok.inj hmade)
    rfl
  kept {id p} hp := ⟨p, by rw [Change.get?_addObject hadd, hp, Option.some_or], p.widens_refl⟩
  fresh {id p} hnone hp := by
    rw [Change.get?_addObject hadd, hnone, Option.none_or] at hp
    split at hp
    · rw [← Option.some.inj hp]
      exact hkind
    · contradiction

/-- One object gets longer lists. -/
theorem widens_store_touch (hget : g.get? o.id = some o) (h : o.Widens o') : g.Widens ((g.store o').touch o.id) where
  root := by rw [root_touch]; rfl
  kept {id p} hp := by
    rw [get?_store_touch hget h.id]
    split
    next hid =>
      rw [hid, hget] at hp
      rw [← Option.some.inj hp]
      exact ⟨o', rfl, h⟩
    · exact ⟨p, hp, p.widens_refl⟩
  fresh {id p} hnone hp := by
    rw [get?_store_touch hget h.id] at hp
    split at hp
    next hid =>
      rw [hid, hget] at hnone
      contradiction
    · rw [hnone] at hp
      contradiction

theorem widens_appendRef {key : String} (hkey : key ∈ listKeys) (owner ref : String) (comment : Option String) :
    g.Widens (g.appendRef owner key ref comment).1 := by
  rcases g.appendRef_eq_or_store owner key ref comment with hsame | ⟨o, -, hget, hchanged⟩
  · rw [hsame]
    exact g.widens_refl
  · rw [hchanged]
    exact widens_store_touch hget (Object.widens_appendRef hkey _)

/-! ## The same questions -/

theorem Widens.project (h : g.Widens g') {project : Object} (hproject : g.project = .ok project) :
    ∃ project', g'.project = .ok project' ∧ project.Widens project' := by
  obtain ⟨s, hroot, hget⟩ := project_eq_ok_iff.mp hproject
  obtain ⟨project', hget', hwide⟩ := h.kept hget
  exact ⟨project', project_eq_ok_iff.mpr ⟨s, by rw [h.root, hroot], hget'⟩, hwide⟩

/-- The objects of a kind among references, where the kind is none that is gained. -/
theorem Widens.forall₂_filterMap (h : g.Widens g') {f : Object → Bool} (hf : ∀ o o', o.Widens o' → f o' = f o)
    (hgained : ∀ o, o.isa ∈ gainedKinds → f o = false) (refs : List String) :
    List.Forall₂ Object.Widens ((refs.filterMap g.get?).filter f) ((refs.filterMap g'.get?).filter f) := by
  induction refs with
  | nil => exact .nil
  | cons ref refs ih =>
    cases hget : g.get? ref with
    | none =>
      rw [List.filterMap_cons_none hget]
      cases hget' : g'.get? ref with
      | none => rwa [List.filterMap_cons_none hget']
      | some o =>
        rw [List.filterMap_cons_some hget', List.filter_cons_of_neg (by rw [hgained o (h.fresh hget hget')]; simp)]
        exact ih
    | some o =>
      obtain ⟨o', hget', hwide⟩ := h.kept hget
      rw [List.filterMap_cons_some hget, List.filterMap_cons_some hget']
      by_cases ho : f o = true
      · rw [List.filter_cons_of_pos ho, List.filter_cons_of_pos (by rw [hf o o' hwide, ho])]
        exact .cons hwide ih
      · rw [List.filter_cons_of_neg ho, List.filter_cons_of_neg (by rw [hf o o' hwide]; exact ho)]
        exact ih

theorem Widens.applicationTargets (h : g.Widens g') {targets : List Object} (htargets : g.applicationTargets = .ok targets) :
    ∃ targets', g'.applicationTargets = .ok targets' ∧ List.Forall₂ Object.Widens targets targets' := by
  obtain ⟨all, hall, htargets⟩ := ok_of_bind htargets
  obtain ⟨project, hproject, hall⟩ := ok_of_bind hall
  obtain ⟨project', hproject', hwide⟩ := h.project hproject
  obtain rfl := Except.ok.inj hall
  obtain rfl := Except.ok.inj htargets
  refine ⟨_, by rw [Graph.applicationTargets, Graph.targets, bind_of_ok hproject']; rfl, ?_⟩
  rw [hwide.refs (by decide), List.filter_filter, List.filter_filter]
  refine h.forall₂_filterMap (fun o o' hwide => ?_) (fun o ho => ?_) _
  · rw [hwide.isa, hwide.text? (by decide)]
  · have hne : o.isa ≠ "PBXNativeTarget" := by
      rintro hisa
      rw [hisa] at ho
      exact absurd ho (by decide)
    rw [beq_false_of_ne hne, Bool.and_false]

/-- The phase of a target is the same one. -/
theorem Widens.buildPhase (h : g.Widens g') {target target' : Object} (htarget : target.Widens target') {isa : String}
    (hisa : isa ∉ gainedKinds) : (g'.buildPhase target' isa).map (·.id) = (g.buildPhase target isa).map (·.id) := by
  have hall := h.forall₂_filterMap (f := fun o => o.isa == isa) (fun o o' hwide => by rw [hwide.isa])
    (fun o ho => beq_false_of_ne (by rintro rfl; exact hisa ho)) (target.refs "buildPhases")
  rw [Graph.buildPhase, Graph.buildPhase, htarget.refs (by decide), ← List.head?_filter, ← List.head?_filter]
  generalize (List.filterMap g.get? (target.refs "buildPhases")).filter _ = phases at hall ⊢
  generalize (List.filterMap g'.get? (target.refs "buildPhases")).filter _ = phases' at hall ⊢
  cases hall with
  | nil => rfl
  | cons hwide _ => exact congrArg some hwide.id

end Graph
end Xcode
end ModuleLink
