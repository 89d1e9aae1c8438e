import ModuleLink.Ios.Registration
import ModuleLink.Proofs.Ios.StaticLibraries

/-!
Files in the phase that links the first application, and what a project gains when a file of one name is linked there.
-/

namespace ModuleLink
namespace Ios

open Plist Xcode Editing Attempt

/-! ## Files in the first phase -/

/-- The phase that links the first application. -/
def firstPhase (g : Graph) : Except Fault (Option Object) := do
  let targets ← g.applicationTargets
  .ok (targets.head?.bind (frameworksPhase g))

/-- A reference to a file of that name. -/
structure IsFileNamed (name : String) (o : Object) : Prop where
  isa : o.isa = "PBXFileReference"
  name : fileName o = name

def HasFile (g : Graph) (name : String) : Prop := ∃ o ∈ g.objects, IsFileNamed name o

/-- The build file refers to a file of that name. -/
def BuildsFile (g : Graph) (name : String) (buildFile : Object) : Prop :=
  buildFile.isa = "PBXBuildFile" ∧ ∃ ref file, buildFile.text? "fileRef" = some ref ∧ g.get? ref = some file ∧
    IsFileNamed name file

/-- The phase of the first application lists a build file that refers to a file of that name. -/
def ListsFile (g : Graph) (name : String) : Prop :=
  ∃ phase, firstPhase g = .ok (some phase) ∧ ∃ ref ∈ phase.refs "files", ∃ buildFile, g.get? ref = some buildFile ∧
    BuildsFile g name buildFile

variable {h h' h'' : Graph} {o o' : Object} {name : String} {names : List String} {phase : Option Object}

theorem firstPhase_of_widens (hwide : h.Widens h') (hphase : firstPhase h = .ok phase) :
    ∃ phase', firstPhase h' = .ok phase' ∧ phase'.map (·.id) = phase.map (·.id) := by
  obtain ⟨targets, htargets, hphase⟩ := ok_of_bind hphase
  obtain rfl := Except.ok.inj hphase
  obtain ⟨targets', htargets', hall⟩ := hwide.applicationTargets htargets
  refine ⟨_, bind_of_ok htargets' _, ?_⟩
  cases hall with
  | nil => rfl
  | cons htarget _ => exact hwide.buildPhase htarget (by decide)

theorem get?_firstPhase {p : Object} (hphase : firstPhase h = .ok (some p)) :
    h.get? p.id = some p ∧ p.isa = "PBXFrameworksBuildPhase" := by
  obtain ⟨targets, -, hphase⟩ := ok_of_bind hphase
  obtain ⟨target, -, hfind⟩ := Option.bind_eq_some_iff.mp (Except.ok.inj hphase)
  obtain ⟨ref, -, href⟩ := List.mem_filterMap.mp (List.mem_of_find?_eq_some hfind)
  exact ⟨by rw [(Graph.get?_mem href).2, href], by simpa using List.find?_some hfind⟩

/-- The phase of the grown project is the phase that was there. -/
theorem exists_firstPhase_of_widens {p' : Object} (hwide : h.Widens h') (hphase : firstPhase h = .ok phase)
    (hphase' : firstPhase h' = .ok (some p')) : ∃ p, phase = some p ∧ p'.id = p.id := by
  obtain ⟨phase', hsame, hid⟩ := firstPhase_of_widens hwide hphase
  rw [Except.ok.inj (hsame.symm.trans hphase')] at hid
  obtain ⟨p, hp, hpid⟩ := Option.map_eq_some_iff.mp hid.symm
  exact ⟨p, hp, hpid.symm⟩

theorem fileName_of_widens (hwide : o.Widens o') : fileName o' = fileName o := by
  rw [fileName, fileName, hwide.text? (by decide), hwide.text? (by decide)]

theorem IsFileNamed.widens (hname : IsFileNamed name o) (hwide : o.Widens o') : IsFileNamed name o' :=
  ⟨hwide.isa.trans hname.isa, (fileName_of_widens hwide).trans hname.name⟩

theorem IsFileNamed.of_widens (hname : IsFileNamed name o') (hwide : o.Widens o') : IsFileNamed name o :=
  ⟨hwide.isa.symm.trans hname.isa, (fileName_of_widens hwide).symm.trans hname.name⟩

theorem HasFile.widens (hfile : HasFile h name) (hnodup : h.ids.Nodup) (hwide : h.Widens h') : HasFile h' name := by
  obtain ⟨o, ho, hname⟩ := hfile
  obtain ⟨o', ho', howide⟩ := hwide.kept (Graph.get?_of_mem hnodup ho)
  exact ⟨o', (Graph.get?_mem ho').1, hname.widens howide⟩

theorem BuildsFile.widens (hbuilds : BuildsFile h name o) (hwide : h.Widens h') (howide : o.Widens o') :
    BuildsFile h' name o' := by
  obtain ⟨hisa, ref, file, href, hfile, hname⟩ := hbuilds
  obtain ⟨file', hfile', hfileWide⟩ := hwide.kept hfile
  exact ⟨howide.isa.trans hisa, ref, file', (howide.text? (by decide)).trans href, hfile', hname.widens hfileWide⟩

/-- What the first phase lists it goes on listing. -/
theorem ListsFile.widens (hlists : ListsFile h name) (hwide : h.Widens h') : ListsFile h' name := by
  obtain ⟨phase, hphase, ref, href, buildFile, hbuild, hbuilds⟩ := hlists
  obtain ⟨phase', hphase', hsome⟩ := firstPhase_of_widens hwide hphase
  obtain ⟨p', rfl, hid⟩ := Option.map_eq_some_iff.mp hsome
  obtain ⟨buildFile', hbuild', hbuildWide⟩ := hwide.kept hbuild
  obtain ⟨q, hq, hphaseWide⟩ := hwide.kept (get?_firstPhase hphase).1
  obtain rfl := Option.some.inj ((get?_firstPhase hphase').1.symm.trans ((congrArg _ hid).trans hq))
  exact ⟨p', hphase', ref, hphaseWide.files ref href, buildFile', hbuild', hbuilds.widens hwide hbuildWide⟩

/-! ## Nothing but files of some names -/

/-- What the project gains are groups, files of the names, and build files for them, which alone are listed anew. -/
structure Gains (names : List String) (h h' : Graph) : Prop where
  widens : h.Widens h'
  files : ∀ {id o}, h.get? id = none → h'.get? id = some o → o.isa = "PBXFileReference" → fileName o ∈ names
  buildFiles : ∀ {id o}, h.get? id = none → h'.get? id = some o → o.isa = "PBXBuildFile" →
    ∃ ref file, o.text? "fileRef" = some ref ∧ h'.get? ref = some file ∧ fileName file ∈ names
  entries : ∀ {id o o'}, h.get? id = some o → h'.get? id = some o' →
    ∀ ref ∈ o'.refs "files", ref ∈ o.refs "files" ∨ h.get? ref = none

theorem gains_refl (names : List String) (h : Graph) : Gains names h h where
  widens := h.widens_refl
  files hnone hsome := by rw [hnone] at hsome; contradiction
  buildFiles hnone hsome := by rw [hnone] at hsome; contradiction
  entries ho ho' ref href := by
    obtain rfl := Option.some.inj (ho.symm.trans ho')
    exact .inl href

theorem Gains.trans (hgain : Gains names h h') (hgain' : Gains names h' h'') : Gains names h h'' where
  widens := hgain.widens.trans hgain'.widens
  files {id o} hnone hsome hisa := by
    cases hmid : h'.get? id with
    | none => exact hgain'.files hmid hsome hisa
    | some p =>
      obtain ⟨p', hp', hwide⟩ := hgain'.widens.kept hmid
      obtain rfl := Option.some.inj (hp'.symm.trans hsome)
      rw [fileName_of_widens hwide]
      exact hgain.files hnone hmid (hwide.isa.symm.trans hisa)
  buildFiles {id o} hnone hsome hisa := by
    cases hmid : h'.get? id with
    | none => exact hgain'.buildFiles hmid hsome hisa
    | some p =>
      obtain ⟨p', hp', hwide⟩ := hgain'.widens.kept hmid
      obtain rfl := Option.some.inj (hp'.symm.trans hsome)
      obtain ⟨ref, file, href, hfile, hname⟩ := hgain.buildFiles hnone hmid (hwide.isa.symm.trans hisa)
      obtain ⟨file', hfile', hfileWide⟩ := hgain'.widens.kept hfile
      exact ⟨ref, file', (hwide.text? (by decide)).trans href, hfile', fileName_of_widens hfileWide ▸ hname⟩
  entries {id o o''} ho ho'' ref href := by
    obtain ⟨o', ho', -⟩ := hgain.widens.kept ho
    rcases hgain'.entries ho' ho'' ref href with hmid | hnone
    · exact hgain.entries ho ho' ref hmid
    · refine .inr (Option.eq_none_iff_forall_ne_some.mpr fun p hp => ?_)
      obtain ⟨p', hp', -⟩ := hgain.widens.kept hp
      rw [hnone] at hp'
      contradiction

theorem Gains.hasFile (hgain : Gains names h h') (hnodup : h'.ids.Nodup) (hfile : HasFile h' name) :
    HasFile h name ∨ name ∈ names := by
  obtain ⟨o', ho', hname⟩ := hfile
  have hget := Graph.get?_of_mem hnodup ho'
  cases hold : h.get? o'.id with
  | none => exact .inr (hname.name ▸ hgain.files hold hget hname.isa)
  | some o =>
    obtain ⟨p, hp, hwide⟩ := hgain.widens.kept hold
    obtain rfl := Option.some.inj (hp.symm.trans hget)
    exact .inl ⟨o, (Graph.get?_mem hold).1, hname.of_widens hwide⟩

/-- Nothing but the files can be listed anew. -/
theorem Gains.listsFile (hgain : Gains names h h') (hphase : firstPhase h = .ok phase) (hlists : ListsFile h' name) :
    ListsFile h name ∨ name ∈ names ∧ phase.isSome = true := by
  obtain ⟨p', hp', ref, href, buildFile, hbuild, hisa, fileRef, file, hfileRef, hfile, hname⟩ := hlists
  obtain ⟨p, rfl, hid⟩ := exists_firstPhase_of_widens hgain.widens hphase hp'
  have hnamed (hin : name ∈ names) : ListsFile h name ∨ name ∈ names ∧ (some p).isSome = true := .inr ⟨hin, rfl⟩
  have hget' := (get?_firstPhase hp').1
  rw [hid] at hget'
  cases hold : h.get? ref with
  | none =>
    obtain ⟨ref', file', href', hfile', hname'⟩ := hgain.buildFiles hold hbuild hisa
    obtain rfl := Option.some.inj (hfileRef.symm.trans href')
    obtain rfl := Option.some.inj (hfile.symm.trans hfile')
    exact hnamed (hname.name ▸ hname')
  | some buildFile₀ =>
    obtain ⟨q, hq, hwide⟩ := hgain.widens.kept hold
    obtain rfl := Option.some.inj (hq.symm.trans hbuild)
    have hlisted := hgain.entries (get?_firstPhase hphase).1 hget' ref href
    rw [hold] at hlisted
    cases hfile₀ : h.get? fileRef with
    | none => exact hnamed (hname.name ▸ hgain.files hfile₀ hfile hname.isa)
    | some file₀ =>
      obtain ⟨q', hq', hfileWide⟩ := hgain.widens.kept hfile₀
      obtain rfl := Option.some.inj (hq'.symm.trans hfile)
      exact .inl ⟨p, hphase, ref, hlisted.resolve_right (by simp), buildFile₀, hold, hwide.isa.symm.trans hisa, fileRef,
        file₀, (hwide.text? (by decide)).symm.trans hfileRef, hfile₀, hname.of_widens hfileWide⟩

/-! ### Steps -/

theorem gains_addObject {isa seed : String} {fields : List (String × Draft)} {comment : Option String}
    (hadd : h.addObject isa fields comment seed = .ok (h', o))
    (hkind : o.isa = "PBXGroup" ∨ o.isa = "PBXFileReference" ∧ fileName o ∈ names) : Gains names h h' := by
  have hnew {id : String} {p : Object} (hnone : h.get? id = none) (hp : h'.get? id = some p) : p = o := by
    rw [Change.get?_addObject hadd, hnone, Option.none_or] at hp
    split at hp
    · exact (Option.some.inj hp).symm
    · contradiction
  refine ⟨Graph.widens_addObject hadd ?_, fun hnone hp hisa => ?_, fun hnone hp hisa => ?_, fun {id p p'} hp hp' => ?_⟩
  · rcases hkind with hisa | ⟨hisa, -⟩
    all_goals rw [hisa]; decide
  · obtain rfl := hnew hnone hp
    rcases hkind with hgroup | ⟨-, hin⟩
    · rw [hgroup] at hisa
      contradiction
    · exact hin
  · obtain rfl := hnew hnone hp
    rcases hkind with hkind | ⟨hkind, -⟩
    all_goals
      rw [hkind] at hisa
      contradiction
  · rw [Change.get?_addObject hadd, hp, Option.some_or] at hp'
    obtain rfl := Option.some.inj hp'
    exact fun ref href => .inl href

/-- Another object is touched, with the files it had. -/
theorem gains_store_touch (names : List String) (hget : h.get? o.id = some o) (hwide : o.Widens o')
    (hfiles : o'.refs "files" = o.refs "files") : Gains names h ((h.store o').touch o.id) := by
  have hold {id : String} (hnone : h.get? id = none) : ((h.store o').touch o.id).get? id = none := by
    rw [Graph.get?_store_touch hget hwide.id]
    split
    next hid =>
      rw [hid, hget] at hnone
      contradiction
    · exact hnone
  refine ⟨Graph.widens_store_touch hget hwide, fun hnone hp => ?_, fun hnone hp => ?_, fun {id p p'} hp hp' => ?_⟩
  · rw [hold hnone] at hp
    contradiction
  · rw [hold hnone] at hp
    contradiction
  · rw [Graph.get?_store_touch hget hwide.id] at hp'
    split at hp'
    next hid =>
      rw [hid, hget] at hp
      obtain rfl := Option.some.inj hp
      obtain rfl := Option.some.inj hp'
      rw [hfiles]
      exact fun ref href => .inl href
    · obtain rfl := Option.some.inj (hp.symm.trans hp')
      exact fun ref href => .inl href

theorem gains_appendChild (names : List String) (owner ref : String) (comment : Option String) :
    Gains names h (h.appendRef owner "children" ref comment).1 := by
  rcases h.appendRef_eq_or_store owner "children" ref comment with hsame | ⟨o, -, hget, hchanged⟩
  · rw [hsame]
    exact gains_refl names h
  · rw [hchanged]
    refine gains_store_touch names hget (Object.widens_appendRef (by decide) _) ?_
    rw [Object.refs, Object.appendRef, Object.refScalars_setField_of_ne (by decide), ← Object.refs]

theorem gains_changeSettings (names : List String) (configuration : String) (change : Dict Value → Option (Dict Value)) :
    Gains names h (h.changeSettings configuration change).1 := by
  rcases h.changeSettings_eq_or_store configuration change with hsame | ⟨o, settings, changed, -, hget, -, -, hchanged⟩
  · rw [hsame]
    exact gains_refl names h
  · rw [hchanged]
    refine gains_store_touch names hget (Object.widens_setField (by decide) (by decide) _) ?_
    rw [Object.refs, Object.refScalars_setField_of_ne (by decide), ← Object.refs]

/-- A build file for a file of that name is made and listed. -/
theorem run_addBuildFile (hindexed : h.IsIndexed) {phase : String} (ho : h.get? phase = some o) {file : Object}
    (hfile : h.get? file.id = some file) (hplain : IsPlain file.id) (hname : IsFileNamed name file) (seed : String) :
    ∃ h', (addBuildFile phase file.id name seed).run h = (.ok (), h') ∧ Gains [name] h h' ∧ h'.IsIndexed ∧
      ∃ o' ref buildFile, h'.get? phase = some o' ∧ ref ∈ o'.refs "files" ∧ h'.get? ref = some buildFile ∧
        BuildsFile h' name buildFile := by
  obtain ⟨h₁, buildFile, hadd, hid, hisa, -, hfileRef, -, hrun⟩ := exists_addBuildFile h phase file.id name seed
  have hnone : h.get? buildFile.id = none := Graph.get?_eq_none_iff.mpr (hid ▸ h.newId_notMem seed)
  have hget₁ (id : String) := Change.get?_addObject hadd id
  have ho₁ : h₁.get? phase = some o := by rw [hget₁, ho, Option.some_or]
  have hget (id : String) := Graph.get?_appendRef "files" buildFile.id (some (entryName name)) ho₁ id
  have hwide : h.Widens (h₁.appendRef phase "files" buildFile.id (some (entryName name))).1 :=
    (Graph.widens_addObject hadd (by rw [hisa]; decide)).trans (Graph.widens_appendRef (by decide) _ _ _)
  have hne : buildFile.id ≠ phase := by
    rintro hsame
    rw [hsame, ho] at hnone
    contradiction
  have hmade : (h₁.appendRef phase "files" buildFile.id (some (entryName name))).1.get? buildFile.id = some buildFile := by
    rw [hget, if_neg hne, hget₁, hnone, if_pos rfl]
    rfl
  have hbuilds : BuildsFile (h₁.appendRef phase "files" buildFile.id (some (entryName name))).1 name buildFile := by
    obtain ⟨file', hfile', hfileWide⟩ := hwide.kept hfile
    refine ⟨hisa, file.id, file', ?_, hfile', hname.widens hfileWide⟩
    rw [Object.text?, hfileRef]
    exact congrArg some (hplain.value _)
  have hnew {id : String} {p : Object} (hfree : h.get? id = none)
      (hp : (h₁.appendRef phase "files" buildFile.id (some (entryName name))).1.get? id = some p) : p = buildFile := by
    rw [hget, if_neg (by rintro rfl; rw [ho] at hfree; contradiction), hget₁, hfree, Option.none_or] at hp
    split at hp
    · exact (Option.some.inj hp).symm
    · contradiction
  have hplainId : Scalar.value ⟨buildFile.id, some (entryName name)⟩ = buildFile.id :=
    (hid ▸ h.newId_isPlain seed).value _
  refine ⟨_, hrun, ⟨hwide, fun hfree hp hkind => ?_, fun hfree hp _ => ?_, fun {id p p'} hp hp' ref href => ?_⟩,
    (hindexed.addObject hadd (by simp) (by decide)).appendRef (by decide) _ _ _, ?_⟩
  · rw [hnew hfree hp, hisa] at hkind
    contradiction
  · obtain rfl := hnew hfree hp
    obtain ⟨-, ref, file', href, hfile', hname'⟩ := hbuilds
    exact ⟨ref, file', href, hfile', hname'.name ▸ List.mem_singleton_self _⟩
  · rw [hget] at hp'
    split at hp'
    next hphase =>
      obtain rfl := Option.some.inj ((hphase ▸ ho).symm.trans hp)
      obtain rfl := Option.some.inj hp'
      split at href
      · exact .inl href
      · rw [Object.refs, Object.refScalars_appendRef_self, List.map_append, List.mem_append, List.map_singleton, hplainId,
          List.mem_singleton] at href
        exact href.imp_right fun (hsame : ref = buildFile.id) => by rw [hsame, hnone]
    · rw [hget₁, hp, Option.some_or] at hp'
      obtain rfl := Option.some.inj hp'
      exact .inl href
  · refine ⟨_, buildFile.id, buildFile, by rw [hget, if_pos rfl], ?_, hmade, hbuilds⟩
    split
    next hthere => exact List.contains_iff_mem.mp hthere
    · rw [Object.refs, Object.refScalars_appendRef_self, List.map_append, List.map_singleton, hplainId]
      simp

/-- Whatever comes of looking for a group, the project has gained no file. -/
theorem gains_ensureGroup {group : GroupName} {found : Option Object} (hindexed : h.IsIndexed) (names : List String)
    (hrun : (ensureGroup group).run h = (.ok found, h')) : Gains names h h' ∧ h'.IsIndexed := by
  obtain ⟨found', _, hfind, hrun⟩ := run_bind_eq_ok hrun
  obtain ⟨-, rfl⟩ := Prod.mk.inj hfind
  cases found' with
  | some group =>
    obtain ⟨-, rfl⟩ := run_pure_eq_ok hrun
    exact ⟨gains_refl names h, hindexed⟩
  | none =>
    obtain ⟨main, _, hmain, hrun⟩ := run_bind_eq_ok hrun
    obtain ⟨-, rfl⟩ := Prod.mk.inj hmain
    cases main with
    | none =>
      obtain ⟨-, rfl⟩ := run_pure_eq_ok hrun
      exact ⟨gains_refl names h, hindexed⟩
    | some main =>
      obtain ⟨made, h₁, hadd, hrun⟩ := run_bind_eq_ok hrun
      obtain ⟨_, h₂, happend, hrun⟩ := run_bind_eq_ok hrun
      obtain ⟨-, rfl⟩ := run_pure_eq_ok hrun
      obtain ⟨-, rfl⟩ := Prod.mk.inj happend
      replace hadd := run_add_eq_ok hadd
      obtain ⟨-, hisa, -⟩ := Graph.eq_of_addObject hadd (by simp) (by decide)
      exact ⟨(gains_addObject hadd (.inl hisa)).trans (gains_appendChild names _ _ _),
        (hindexed.addObject hadd (by simp) (by decide)).appendRef (by decide) _ _ _⟩

end Ios
end ModuleLink
