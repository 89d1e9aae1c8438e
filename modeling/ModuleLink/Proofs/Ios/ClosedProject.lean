import ModuleLink.Proofs.Ios.FailedEdits
import ModuleLink.Proofs.Xcode.Closed
import ModuleLink.Proofs.Xcode.Restored

/-!
Unlinking and references.  A project in which every id that is referred to is that of an object is such a project behind
unlinking, as long as the objects that unlinking removes are referred to only where linking refers to them.
-/

namespace ModuleLink
namespace Ios

open Plist Xcode Editing Attempt Workspace

variable {name product projectName : String} {app : App} {library : Library} {project : Path} {t : Tree}
  {g₀ g g' built : Graph} {group : Object} {L : Layout} {w w' : Workspace} {products libraries : List String}

/-- The kinds of the phases that unlinking takes files out of. -/
def filePhaseKinds : List String :=
  ["PBXFrameworksBuildPhase", "PBXSourcesBuildPhase", "PBXResourcesBuildPhase", "PBXHeadersBuildPhase"]

/-- What unlinking removes stands only where linking puts it. -/
structure HeldAsLinked (g : Graph) (app : App) (name projectName : String) (products libraries : List String) : Prop where
  /-- A project that is listed in the group for libraries stands in the group. -/
  projects : ∀ group, g.findGroup (bearsName app.libraryFolder) = .ok (some group) → ∀ id ∈ entriesFor group projectName,
    g.HeldOnly id fun o place => o.id = group.id ∧ place = .item "children"
  /-- A group that was made stands in the main group. -/
  groups : ∀ n ∈ [groupName app.libraryFolder, frameworksGroup], ∀ group, g.IsUnder n.fits group → group.id = n.id →
    g.HeldOnly n.id fun o place => (∃ main, g.mainGroup = .ok (some main) ∧ o.id = main.id) ∧ place = .item "children"
  /-- The build file of a product stands in the phase of its application. -/
  buildFiles : ∀ targets, g.applicationTargets = .ok targets → ∀ target ∈ targets, ∀ product ∈ products,
    g.HeldOnly (Digest.stableId (buildSeed name product target.id)) fun o place =>
      (∃ phase, frameworksPhase g target = some phase ∧ o.id = phase.id) ∧ place = .item "files"
  /-- The file of a product stands in build files. -/
  references : ∀ product ∈ products, g.HeldOnly (Digest.stableId (productSeed name product)) fun o place =>
    o.isa = "PBXBuildFile" ∧ place = .field "fileRef"
  /-- The file of a system library stands in build files and in the group for them. -/
  systemFiles : ∀ library ∈ libraries, g.HeldOnly (Digest.stableId (systemSeed library)) fun o place =>
    o.isa = "PBXBuildFile" ∧ place = .field "fileRef" ∨
      (∃ group, g.findGroup frameworksGroup.fits = .ok (some group) ∧ o.id = group.id) ∧ place = .item "children"
  /-- A build file of a system library stands in phases. -/
  systemBuildFiles : ∀ library ∈ libraries, ∀ b ∈ g.objects, b.isa = "PBXBuildFile" →
    b.text? "fileRef" = some (Digest.stableId (systemSeed library)) →
      g.HeldOnly b.id fun o place => o.isa ∈ filePhaseKinds ∧ place = .item "files"

/-! ## Steps -/

section Steps

variable {α : Type} {a b : α} {owner key id : String}

theorem run_remove_eq_ok (h : (do let _ ← remove id; pure a : Editing α).run g = (.ok b, g')) :
    b = a ∧ g' = (Change.remove id).apply g := by
  obtain ⟨_, g₁, hremove, h⟩ := run_bind_eq_ok h
  rw [run_remove, Prod.mk.injEq] at hremove
  obtain ⟨-, rfl⟩ := hremove
  obtain ⟨rfl, rfl⟩ := run_pure_eq_ok h
  exact ⟨rfl, rfl⟩

theorem run_detach_remove_eq_ok
    (h : (do let _ ← detach owner key id; let _ ← remove id; pure a : Editing α).run g = (.ok b, g')) :
    b = a ∧ g' = (Change.remove id).apply ((Change.removeRef owner key id).apply g) := by
  obtain ⟨_, g₁, hdetach, h⟩ := run_bind_eq_ok h
  rw [run_detach, Prod.mk.injEq] at hdetach
  obtain ⟨-, rfl⟩ := hdetach
  exact run_remove_eq_ok h

end Steps

/-! ## Groups -/

/-- An object that only one list holds is taken out of it and removed. -/
theorem isPart_of_take {owner key id : String} (hg : g₀.IsPart g) (hkey : key ∈ ["children", "files"])
    (honly : g₀.HeldOnly id fun o place => o.id = owner ∧ place = .item key) :
    g₀.IsPart ((Change.remove id).apply ((Change.removeRef owner key id).apply g)) := by
  have hdetached := Graph.detached_removeRef hg.indexed hkey owner id
  refine hg.remove hdetached honly (by simp) fun o₀ _ o ho hid _ place hplace => ?_
  obtain ⟨howner, rfl⟩ := hplace
  exact Graph.notMem_held_of_removeRef hdetached.indexed ho (hid.trans howner)

/-- A group that is dropped stands in the main group only. -/
theorem isPart_of_dropGroup {n : GroupName} {found : Option Object} (hg : g₀.IsPart g)
    (honly : ∀ group, found = some group → group.id = n.id → g₀.HeldOnly n.id fun o place =>
      (∃ main, g₀.mainGroup = .ok (some main) ∧ o.id = main.id) ∧ place = .item "children")
    (h : (dropGroup found n).run g = (.ok (), g')) : g₀.IsPart g' := by
  cases found with
  | none =>
    obtain ⟨-, rfl⟩ := run_pure_eq_ok h
    exact hg
  | some group =>
    rw [dropGroup] at h
    split at h
    · obtain ⟨-, rfl⟩ := run_pure_eq_ok h
      exact hg
    next hcondition =>
      rw [Bool.or_eq_true, not_or, bne_iff_ne, not_not] at hcondition
      have honly := honly group rfl hcondition.2
      obtain ⟨main, g₁, hask, h⟩ := run_bind_eq_ok h
      rw [run_ask, Prod.mk.injEq] at hask
      obtain ⟨hmain, rfl⟩ := hask
      cases main with
      | none =>
        obtain ⟨-, rfl⟩ := run_remove_eq_ok h
        rw [hcondition.2]
        refine hg.remove (Graph.detached_refl n.id hg.indexed) honly (by simp) fun o₀ _ o ho hid _ place hplace => ?_
        obtain ⟨⟨main, hmain₀, -⟩, -⟩ := hplace
        obtain ⟨_, hnone, -⟩ := hg.mainGroup hmain₀ hmain
        contradiction
      | some main =>
        obtain ⟨-, rfl⟩ := run_detach_remove_eq_ok h
        rw [hcondition.2]
        refine isPart_of_take hg (by decide) fun o ho place hin => ?_
        obtain ⟨⟨main₀, hmain₀, hid⟩, rfl⟩ := honly o ho place hin
        obtain ⟨_, hsome, hmainId⟩ := hg.mainGroup hmain₀ hmain
        obtain rfl := Option.some.inj hsome
        exact ⟨hid.trans hmainId.symm, rfl⟩

theorem id_foldl_removeRef (entries : List String) (group : Object) :
    (entries.foldl (fun g entry => g.removeRef "children" entry) group).id = group.id := by
  induction entries generalizing group with
  | nil => rfl
  | cons entry entries ih => exact (ih _).trans (group.id_removeRef _ _)

theorem isPart_of_unlistProject (hheld : HeldAsLinked g₀ app name projectName products libraries)
    (hg : g₀.IsPart g₀) (h : (unlistProject app.libraryFolder projectName).run g₀ = (.ok (), g)) : g₀.IsPart g := by
  obtain ⟨found, g₁, hfound, h⟩ := run_bind_eq_ok h
  rw [findGroup, run_ask, Prod.mk.injEq] at hfound
  obtain ⟨hfound, rfl⟩ := hfound
  cases found with
  | none =>
    obtain ⟨-, rfl⟩ := run_pure_eq_ok h
    exact hg
  | some group =>
    obtain ⟨u, g₂, hloop, h⟩ := run_bind_eq_ok h
    have hg₂ : g₀.IsPart g₂ := run_forIn_eq_ok (I := fun _ g => g₀.IsPart g) hloop hg fun _ entry hentry g r g' hg h => by
      obtain ⟨rfl, rfl⟩ := run_detach_remove_eq_ok h
      exact ⟨rfl, isPart_of_take hg (by decide) (hheld.projects group hfound entry hentry)⟩
    refine isPart_of_dropGroup hg₂ (fun left hleft hid => ?_) h
    have hsame : left.id = group.id := by
      rw [← Option.some.inj hleft]
      exact id_foldl_removeRef _ _
    exact hheld.groups (groupName app.libraryFolder) List.mem_cons_self group (Graph.isUnder_of_findGroup hfound)
      (hsame ▸ hid)

/-! ## Static libraries -/

theorem mem_referrers {isa key id : String} {users : List Object} {o : Object} (hindexed : g.IsIndexed)
    (husers : g.referrers isa key id = .ok users) :
    o ∈ users ↔ o ∈ g.objects ∧ o.isa = isa ∧ o.text? key = some id := by
  rw [Graph.referrers, bind_of_ok (hindexed.objectsOf isa)] at husers
  rw [← Except.ok.inj husers, List.mem_filter, List.mem_filter, beq_iff_eq, beq_iff_eq, and_assoc]

/-- The applications of a part were applications before. -/
theorem exists_applicationTargets {lost : String → Prop} {targets : List Object} (h : g₀.Narrows lost g)
    (htargets : g.applicationTargets = .ok targets) :
    ∃ targets₀, g₀.applicationTargets = .ok targets₀ ∧ ∀ t ∈ targets, ∃ t₀ ∈ targets₀, t₀.Narrows lost t := by
  obtain ⟨all, hall, -⟩ := ok_of_bind htargets
  obtain ⟨p, hp, -⟩ := ok_of_bind hall
  obtain ⟨p₀, hp₀, -⟩ := h.project hp
  obtain ⟨targets₀, htargets₀⟩ : ∃ targets₀, g₀.applicationTargets = .ok targets₀ := by
    rw [Graph.applicationTargets, Graph.targets, bind_of_ok hp₀]
    exact ⟨_, rfl⟩
  exact ⟨targets₀, htargets₀, h.applicationTargets htargets₀ htargets⟩

/-- A build file that only the phase of an application holds is taken out of that phase and removed. -/
theorem isPart_of_takeFile {lost : String → Prop} {target₀ target : Object} {id : String} (hg : g₀.IsPart g)
    (hnarrows : target₀.Narrows lost target)
    (honly : g₀.HeldOnly id fun o place =>
      (∃ phase, frameworksPhase g₀ target₀ = some phase ∧ o.id = phase.id) ∧ place = .item "files") :
    (∀ phase, frameworksPhase g target = some phase →
        g₀.IsPart ((Change.remove id).apply ((Change.removeRef phase.id "files" id).apply g))) ∧
      (frameworksPhase g target = none → g₀.IsPart ((Change.remove id).apply g)) := by
  -- The phase is the one that the application had at first, if that is still there.
  have hsame : ∀ phase₀, frameworksPhase g₀ target₀ = some phase₀ → phase₀.id ∈ g.ids →
      ∃ phase, frameworksPhase g target = some phase ∧ phase.id = phase₀.id := by
    intro phase₀ hphase₀ hin
    obtain ⟨phase, hget⟩ := Graph.exists_get?_of_mem hin
    exact ⟨phase, hg.narrows.buildPhase hnarrows hphase₀ hget, (Graph.get?_mem hget).2⟩
  constructor
  · intro phase hphase
    have hdetached : Graph.Detached id g _ := Graph.detached_removeRef hg.indexed (List.mem_of_getLast? rfl) phase.id id
    refine hg.remove hdetached honly (by simp) fun o₀ _ o ho hid _ place hplace => ?_
    obtain ⟨⟨phase₀, hphase₀, howner⟩, rfl⟩ := hplace
    have hin : phase₀.id ∈ g.ids := by
      rw [← howner, ← hid, ← hdetached.ids]
      exact List.mem_map_of_mem ho
    obtain ⟨_, hphase', hphaseId⟩ := hsame phase₀ hphase₀ hin
    obtain rfl := Option.some.inj (hphase.symm.trans hphase')
    exact Graph.notMem_held_of_removeRef hdetached.indexed ho ((hid.trans howner).trans hphaseId.symm)
  · intro hnone
    refine hg.remove (Graph.detached_refl _ hg.indexed) honly (by simp) fun o₀ _ o ho hid _ place hplace => ?_
    obtain ⟨⟨phase₀, hphase₀, howner⟩, -⟩ := hplace
    have hin : phase₀.id ∈ g.ids := by
      rw [← howner, ← hid]
      exact List.mem_map_of_mem ho
    obtain ⟨_, hphase', -⟩ := hsame phase₀ hphase₀ hin
    rw [hnone] at hphase'
    contradiction

/-- The build files of a product are taken out, and the reference to it when nothing builds it any more. -/
theorem isPart_of_removeStaticLibrary (hheld : HeldAsLinked g₀ app name projectName products libraries)
    (hproduct : product ∈ products) (hg : g₀.IsPart g) (h : (removeStaticLibrary name product).run g = (.ok (), g')) :
    g₀.IsPart g' := by
  obtain ⟨targets, g₁, hask, h⟩ := run_bind_eq_ok h
  rw [run_ask, Prod.mk.injEq] at hask
  obtain ⟨htargets, rfl⟩ := hask
  obtain ⟨targets₀, htargets₀, hwas⟩ := exists_applicationTargets hg.narrows htargets
  obtain ⟨u, g₂, hloop, h⟩ := run_bind_eq_ok h
  have hg₂ : g₀.IsPart g₂ := run_forIn_eq_ok (I := fun _ g => g₀.IsPart g) hloop hg fun _ target htarget g r g' hg h => by
    obtain ⟨target₀, htarget₀, hnarrows⟩ := hwas target htarget
    have honly := hheld.buildFiles targets₀ htargets₀ target₀ htarget₀ product hproduct
    rw [← hnarrows.id] at honly
    obtain ⟨hlisted, hunlisted⟩ := isPart_of_takeFile hg hnarrows honly
    obtain ⟨_, _, hget, h⟩ := run_bind_eq_ok h
    obtain ⟨rfl, rfl⟩ := run_pure_eq_ok hget
    split at h
    · obtain ⟨_, _, hget, h⟩ := run_bind_eq_ok h
      obtain ⟨rfl, rfl⟩ := run_pure_eq_ok hget
      split at h
      next phase hphase =>
        obtain ⟨rfl, rfl⟩ := run_detach_remove_eq_ok h
        exact ⟨rfl, hlisted phase hphase⟩
      next hnone =>
        obtain ⟨rfl, rfl⟩ := run_remove_eq_ok h
        exact ⟨rfl, hunlisted hnone⟩
    · obtain ⟨rfl, rfl⟩ := run_pure_eq_ok h
      exact ⟨rfl, hg⟩
  obtain ⟨_, _, hget, h⟩ := run_bind_eq_ok h
  obtain ⟨rfl, rfl⟩ := run_pure_eq_ok hget
  split at h
  · obtain ⟨users, g₃, hask, h⟩ := run_bind_eq_ok h
    rw [run_ask, Prod.mk.injEq] at hask
    obtain ⟨husers, rfl⟩ := hask
    split at h
    next hempty =>
      obtain ⟨-, rfl⟩ := run_remove_eq_ok h
      refine hg₂.remove (Graph.detached_refl _ hg₂.indexed) (hheld.references product hproduct) (by simp)
        fun o₀ _ o ho _ hisa place hplace hin => ?_
      obtain ⟨hkind, rfl⟩ := hplace
      have huser : o ∈ users := (mem_referrers hg₂.indexed husers).mpr ⟨ho, hisa.trans hkind, Option.mem_toList.mp hin⟩
      rw [List.isEmpty_iff.mp hempty] at huser
      contradiction
    · obtain ⟨-, rfl⟩ := run_pure_eq_ok h
      exact hg₂
  · obtain ⟨-, rfl⟩ := run_pure_eq_ok h
    exact hg₂

/-! ## System libraries -/

/-- A build file that stands in phases only is taken out of all of them. -/
theorem detached_of_phases {id : String} {phases : List Object} {u : PUnit} (hg : g.IsIndexed)
    (h : (forIn phases PUnit.unit fun phase _ => do
      let _ ← detach phase.id "files" id
      pure (ForInStep.yield PUnit.unit) : Editing PUnit).run g = (.ok u, g')) :
    Graph.Detached id g g' ∧ ∀ phase ∈ phases, ∀ o ∈ g'.objects, o.id = phase.id → id ∉ o.held (.item "files") := by
  refine run_forIn_eq_ok (I := fun done g' => Graph.Detached id g g' ∧
    ∀ phase ∈ done, ∀ o ∈ g'.objects, o.id = phase.id → id ∉ o.held (.item "files")) h
    ⟨Graph.detached_refl id hg, by simp⟩ fun done phase _ g₁ r g₂ hdone h => ?_
  obtain ⟨hdetached, hdone⟩ := hdone
  obtain ⟨_, _, hdetach, h⟩ := run_bind_eq_ok h
  rw [run_detach, Prod.mk.injEq] at hdetach
  obtain ⟨-, rfl⟩ := hdetach
  obtain ⟨rfl, rfl⟩ := run_pure_eq_ok h
  have hstep : Graph.Detached id g₁ ((Change.removeRef phase.id "files" id).apply g₁) :=
    Graph.detached_removeRef hdetached.indexed (by decide) phase.id id
  refine ⟨rfl, hdetached.trans hstep, fun p hp o ho hid hin => ?_⟩
  rcases List.mem_append.mp hp with hp | hp
  · obtain ⟨o₁, ho₁, hwas⟩ := hstep.narrows.exists_origin ho hstep.indexed.nodup
    exact hdone p hp o₁ ho₁ (hwas.id ▸ hid) (hwas.held _ hin)
  · obtain rfl := List.mem_singleton.mp hp
    exact Graph.notMem_held_of_removeRef hstep.indexed ho hid hin

/-- It is taken out of the phases of every kind. -/
theorem detached_of_kinds {id : String} {kinds : List String} {u : PUnit} (hg : g.IsIndexed)
    (h : (forIn kinds PUnit.unit fun isa _ => do
      let phases ← ask fun g => g.objectsOf isa
      let _ ← forIn phases PUnit.unit fun phase _ => do
        let _ ← detach phase.id "files" id
        pure (ForInStep.yield PUnit.unit)
      pure (ForInStep.yield PUnit.unit) : Editing PUnit).run g = (.ok u, g')) :
    Graph.Detached id g g' ∧ ∀ isa ∈ kinds, ∀ o ∈ g'.objects, o.isa = isa → id ∉ o.held (.item "files") := by
  refine run_forIn_eq_ok (I := fun done g' => Graph.Detached id g g' ∧
    ∀ isa ∈ done, ∀ o ∈ g'.objects, o.isa = isa → id ∉ o.held (.item "files")) h
    ⟨Graph.detached_refl id hg, by simp⟩ fun done isa _ g₁ r g₂ hdone h => ?_
  obtain ⟨hdetached, hdone⟩ := hdone
  obtain ⟨phases, _, hask, h⟩ := run_bind_eq_ok h
  rw [run_ask, hdetached.indexed.objectsOf, Prod.mk.injEq, Except.ok.injEq] at hask
  obtain ⟨rfl, rfl⟩ := hask
  obtain ⟨_, g₃, hloop, h⟩ := run_bind_eq_ok h
  obtain ⟨rfl, rfl⟩ := run_pure_eq_ok h
  obtain ⟨hstep, hfree⟩ := detached_of_phases hdetached.indexed hloop
  refine ⟨rfl, hdetached.trans hstep, fun k hk o ho hisa hin => ?_⟩
  obtain ⟨o₁, ho₁, hwas⟩ := hstep.narrows.exists_origin ho hstep.indexed.nodup
  rcases List.mem_append.mp hk with hk | hk
  · exact hdone k hk o₁ ho₁ (by rw [← hwas.isa, hisa]) (hwas.held _ hin)
  · obtain rfl := List.mem_singleton.mp hk
    exact hfree o₁ (List.mem_filter.mpr ⟨ho₁, by rw [← hwas.isa, hisa, beq_self_eq_true]⟩) o ho hwas.id hin

/-- The build files of a system library are removed, with all that stands for them in phases. -/
theorem isPart_of_removeBuildFiles {file : String} (hg : g₀.IsPart g)
    (honly : ∀ b ∈ g₀.objects, b.isa = "PBXBuildFile" → b.text? "fileRef" = some file →
      g₀.HeldOnly b.id fun o place => o.isa ∈ filePhaseKinds ∧ place = .item "files")
    (h : (removeBuildFiles file).run g = (.ok (), g')) :
    g₀.IsPart g' ∧ g.Narrows (fun _ => True) g' ∧
      ∀ o ∈ g'.objects, o.isa = "PBXBuildFile" → o.text? "fileRef" ≠ some file := by
  obtain ⟨users, g₁, hask, h⟩ := run_bind_eq_ok h
  rw [run_ask, Prod.mk.injEq] at hask
  obtain ⟨husers, rfl⟩ := hask
  obtain ⟨u, g₂, hloop, h⟩ := run_bind_eq_ok h
  obtain ⟨-, rfl⟩ := run_pure_eq_ok h
  have hdone := run_forIn_eq_ok (I := fun done g' => g₀.IsPart g' ∧ g.Narrows (fun _ => True) g' ∧
    ∀ b ∈ done, b.id ∉ g'.ids) hloop ⟨hg, g.narrows_refl _, by simp⟩ fun done b hb g₁ r g₂ hdone h => ?_
  · obtain ⟨hpart, hnarrows, hgone⟩ := hdone
    refine ⟨hpart, hnarrows, fun o ho hisa hfile => ?_⟩
    obtain ⟨o₁, ho₁, hwas⟩ := hnarrows.exists_origin ho hpart.indexed.nodup
    have huser := (mem_referrers hg.indexed husers).mpr ⟨ho₁, by rw [← hwas.isa, hisa], by rw [← hwas.text? (by decide), hfile]⟩
    exact hgone o₁ huser (hwas.id ▸ List.mem_map_of_mem ho)
  · obtain ⟨hpart, hnarrows, hgone⟩ := hdone
    obtain ⟨_, g₃, hkinds, h⟩ := run_bind_eq_ok h
    obtain ⟨hdetached, hfree⟩ := detached_of_kinds hpart.indexed hkinds
    obtain ⟨rfl, rfl⟩ := run_remove_eq_ok h
    obtain ⟨hb, hisa, hfile⟩ := (mem_referrers hg.indexed husers).mp hb
    obtain ⟨b₀, hb₀, hwas⟩ := hg.narrows.exists_origin hb hg.indexed.nodup
    have honly := honly b₀ hb₀ (by rw [← hwas.isa, hisa]) (by rw [← hwas.text? (by decide), hfile])
    rw [← hwas.id] at honly
    refine ⟨rfl, ?_, ?_, fun c hc => ?_⟩
    · refine hpart.remove hdetached honly (by simp) fun o₀ _ o ho _ hsame place hplace => ?_
      obtain ⟨hkind, rfl⟩ := hplace
      exact hfree o₀.isa hkind o ho hsame
    · exact (hnarrows.trans (hdetached.narrows.mono fun _ _ => trivial)).trans (Graph.narrows_removeObject _ _ _)
    · rw [Graph.mem_ids_remove, hdetached.ids]
      rcases List.mem_append.mp hc with hc | hc
      · exact fun hin => hgone c hc hin.2
      · rw [List.mem_singleton.mp hc]
        exact fun hin => hin.1 rfl

/-- The first group of a name is still the first one, if it is still there. -/
theorem findGroup_of_isPart {fits : Option String → Bool} {found : Option Object} (hg : g₀.IsPart g)
    (hfind : g₀.findGroup fits = .ok (some group)) (hfound : g.findGroup fits = .ok found) (hin : group.id ∈ g.ids) :
    ∃ group', found = some group' ∧ group'.id = group.id := by
  obtain ⟨main, hmain, -⟩ := Graph.findGroup_eq_some_iff.mp hfind
  obtain ⟨main?, hmain', -⟩ := ok_of_bind hfound
  obtain ⟨main', rfl, -⟩ := hg.mainGroup hmain hmain'
  obtain ⟨group', hget⟩ := Graph.exists_get?_of_mem hin
  have hfind' := hg.narrows.findGroup hmain hmain' hfind hget
  exact ⟨group', Except.ok.inj (hfound.symm.trans hfind'), (Graph.get?_mem hget).2⟩

theorem isPart_of_removeSystemLibraries (hheld : HeldAsLinked g₀ app name projectName products libraries)
    (hg : g₀.IsPart g) (h : (removeSystemLibraries libraries).run g = (.ok (), g')) : g₀.IsPart g' := by
  obtain ⟨group?, g₁, hfound, h⟩ := run_bind_eq_ok h
  rw [findGroup, run_ask, Prod.mk.injEq] at hfound
  obtain ⟨hfound, rfl⟩ := hfound
  obtain ⟨u, g₂, hloop, h⟩ := run_bind_eq_ok h
  have hdone := run_forIn_eq_ok (I := fun _ g' => g₀.IsPart g' ∧ g.Narrows (fun _ => True) g') hloop
    ⟨hg, g.narrows_refl _⟩ fun _ library hlibrary g₁ r g₂ hdone h => ?_
  · obtain ⟨dropped, _, hask, h⟩ := run_bind_eq_ok h
    rw [findGroup, run_ask, Prod.mk.injEq] at hask
    obtain ⟨hdropped, rfl⟩ := hask
    refine isPart_of_dropGroup hdone.1 (fun group hsome hid => ?_) h
    rw [hsome] at hdropped
    obtain ⟨o, hunder, hwas⟩ := hdone.1.narrows.isUnder (Graph.isUnder_of_findGroup hdropped)
    exact hheld.groups frameworksGroup (by simp) o hunder (hwas.id ▸ hid)
  · obtain ⟨hpart, hnarrows⟩ := hdone
    obtain ⟨_, _, hget, h⟩ := run_bind_eq_ok h
    obtain ⟨rfl, rfl⟩ := run_pure_eq_ok hget
    split at h
    · obtain ⟨_, g₃, hremove, h⟩ := run_bind_eq_ok h
      obtain ⟨hpart₃, hnarrows₃, hfree⟩ := isPart_of_removeBuildFiles hpart (hheld.systemBuildFiles library hlibrary) hremove
      have honly := hheld.systemFiles library hlibrary
      have hnarrows' := hnarrows.trans hnarrows₃
      have hgroup : ∀ group₀, g₀.findGroup frameworksGroup.fits = .ok (some group₀) → group₀.id ∈ g₃.ids →
          ∃ group, group? = some group ∧ group.id = group₀.id := by
        intro group₀ hfind hin
        obtain ⟨o, hget⟩ := Graph.exists_get?_of_mem hin
        obtain ⟨o', hget', -⟩ := hnarrows'.origin hget
        have hin' := List.mem_map_of_mem (f := Object.id) (Graph.get?_mem hget').1
        rw [(Graph.get?_mem hget').2] at hin'
        exact findGroup_of_isPart hg hfind hfound hin'
      cases group? with
      | some group =>
        obtain ⟨rfl, rfl⟩ := run_detach_remove_eq_ok h
        have hdetached : Graph.Detached _ g₃ _ := Graph.detached_removeRef hpart₃.indexed List.mem_cons_self group.id
          (Digest.stableId (systemSeed library))
        refine ⟨rfl, hpart₃.remove hdetached honly (by simp) fun o₀ _ o ho hid hisa place hplace hin => ?_,
          (hnarrows'.trans (hdetached.narrows.mono fun _ _ => trivial)).trans (Graph.narrows_removeObject _ _ _)⟩
        obtain ⟨o₁, ho₁, hwas⟩ := hdetached.narrows.exists_origin ho hdetached.indexed.nodup
        rcases hplace with ⟨hkind, rfl⟩ | ⟨⟨group₀, hfind, howner⟩, rfl⟩
        · exact hfree o₁ ho₁ (by rw [← hwas.isa, hisa, hkind]) (Option.mem_toList.mp (hwas.held _ hin))
        · obtain ⟨_, hsome, hgroupId⟩ := hgroup group₀ hfind (by
            rw [← howner, ← hid, hwas.id]
            exact List.mem_map_of_mem ho₁)
          obtain rfl := Option.some.inj hsome
          exact Graph.notMem_held_of_removeRef hdetached.indexed ho ((hid.trans howner).trans hgroupId.symm) hin
      | none =>
        obtain ⟨rfl, rfl⟩ := run_remove_eq_ok h
        refine ⟨rfl, hpart₃.remove (Graph.detached_refl _ hpart₃.indexed) honly (by simp)
          fun o₀ _ o ho hid hisa place hplace hin => ?_, hnarrows'.trans (Graph.narrows_removeObject _ _ _)⟩
        rcases hplace with ⟨hkind, rfl⟩ | ⟨⟨group₀, hfind, howner⟩, rfl⟩
        · exact hfree o ho (by rw [hisa, hkind]) (Option.mem_toList.mp hin)
        · obtain ⟨_, hsome, -⟩ := hgroup group₀ hfind (by
            rw [← howner, ← hid]
            exact List.mem_map_of_mem ho)
          contradiction
    · obtain ⟨rfl, rfl⟩ := run_pure_eq_ok h
      exact ⟨rfl, hpart, hnarrows⟩

/-! ## Unlinking -/

theorem isPart_of_unlinkProject {needed : List String} (hclosed : g₀.IsClosed) (hindexed : g₀.IsIndexed)
    (hheld : ∀ products, built.products staticLibraryType = .ok products → HeldAsLinked g₀ app name project.name products
      (library.systemLibraries.filter fun l => !needed.contains l))
    (h : (unlinkProject t name app library project built needed).run g₀ = (.ok (), g)) : g₀.IsPart g := by
  obtain ⟨_, g₁, hunlist, h⟩ := run_bind_eq_ok h
  obtain ⟨products, _, hask, h⟩ := run_bind_eq_ok h
  obtain ⟨hproducts, rfl⟩ := Prod.mk.inj hask
  have hheld := hheld products hproducts
  have hg₁ := isPart_of_unlistProject hheld (Graph.isPart_refl hclosed hindexed) hunlist
  obtain ⟨_, g₂, hstatic, h⟩ := run_bind_eq_ok h
  have hg₂ : g₀.IsPart g₂ := run_forIn_eq_ok (I := fun _ g => g₀.IsPart g) hstatic hg₁ fun _ product hproduct g r g' hg h => by
    obtain ⟨_, g₁, hremove, h⟩ := run_bind_eq_ok h
    obtain ⟨rfl, rfl⟩ := run_pure_eq_ok h
    exact ⟨rfl, isPart_of_removeStaticLibrary hheld hproduct hg hremove⟩
  obtain ⟨_, g₃, hsystem, h⟩ := run_bind_eq_ok h
  have hg₃ := isPart_of_removeSystemLibraries hheld hg₂ hsystem
  refine run_of_keeps (P := g₀.IsPart) ?_ h hg₃
  rw [changeHeaderSettings]
  split
  · refine (keeps_ofExcept _).bind fun path => (keeps_ask _).bind fun configurations => ?_
    refine (keeps_forIn (fun configuration _ _ => Keeps.bind ?_ fun _ => keeps_pure _) _).bind fun _ => keeps_pure _
    exact fun g hg => hg.removeSetting configuration.id headerSetting path
  · exact keeps_pure _

theorem isIndexed_of_loadFile {file : Path} (h : ProjectFile.load t file = .ok g) : g.IsIndexed := by
  rw [ProjectFile.load] at h
  split at h
  next text _ => exact Graph.isIndexed_of_load h
  all_goals contradiction

/-- Where every id that is referred to is that of an object, and what unlinking removes is referred to only where linking
refers to it, unlinking saves a project of that kind.  In Xcode layout that is what the project file holds then. -/
theorem isClosed_of_unregister {others : List Library} {left : List String}
    (hroute : route app library = .projectEdits project)
    (hload : ProjectFile.load w.tree app.projectFile = .ok g₀) (hclosed : g₀.IsClosed)
    (hheld : ∀ built products, ProjectFile.load w.tree (projectFile project) = .ok built →
      built.products staticLibraryType = .ok products → HeldAsLinked g₀ app name project.name products
        (library.systemLibraries.filter fun l => !(others.flatMap Library.systemLibraries).contains l))
    (h : (unregister name library app others).run w = (.ok left, w')) :
    ∃ g, g.IsClosed ∧ (ProjectFile.save app.projectFile g).run w = (.ok (), w') ∧
      ∀ L : Layout, w.tree.readText app.projectFile = .ok (String.ofList L.text) →
        ∃ g', ProjectFile.load w'.tree app.projectFile = .ok g' ∧ g'.IsClosed := by
  rw [unregister, hroute] at h
  obtain ⟨_, _, hedited, h⟩ := run_bind_eq_ok h
  obtain ⟨-, rfl⟩ := run_pure_eq_ok h
  obtain ⟨_, built, g, hsame, hbuilt, hedits, hsave⟩ := run_editProject_eq_ok hedited
  obtain rfl := Except.ok.inj (hload.symm.trans hsame)
  have hpart := isPart_of_unlinkProject hclosed (isIndexed_of_loadFile hload) (hheld built · hbuilt) hedits
  refine ⟨g, hpart.closed, hsave, fun L hread => ?_⟩
  have hloaded : Loaded L g₀ := by
    rw [load_eq_of_readText hread, String.toList_ofList] at hload
    exact loaded_of_load hload
  have hfollows := run_of_keeps (keeps_unlinkProject (stable_follows _ g₀) _) hedits hloaded.follows
  obtain ⟨g', hload', hmatches | ⟨rfl, -⟩⟩ := exists_load_of_save hread hload hfollows hsave
  · exact ⟨g', hload', hpart.closed.of_matches hmatches (hmatches.ids.nodup_iff.mpr hpart.indexed.nodup)⟩
  · exact ⟨g', hload', hclosed⟩

/-! ## A product that nothing builds -/

/-- A file reference made for a product. -/
def unusedProduct : Object := ⟨"76F1CDBD7E7D95B91BC4AB0A", ⟨[("isa", .text "PBXFileReference")], []⟩, none⟩

theorem unusedProduct_isProper : unusedProduct.IsProper where
  id := ⟨by decide, by decide⟩
  comment := by simp [unusedProduct]
  fields := by
    refine writable_plain (by simp) (fun e he => ?_) fun e he => ?_
    · obtain rfl := List.mem_singleton.mp he
      exact isQuotable_isa
    · obtain rfl := List.mem_singleton.mp he
      exact writable_text (isQuotable_of_word (List.all_eq_true.mp (by decide)))

def productLines : ObjectLines :=
  .ofObject unusedProduct unusedProduct_isProper true tableIndent firstGroup.indent_isIndent (by decide +kernel)

theorem isa_of_mem_singleton {l : ObjectLines} {isa : String} (h : l.object.isa = isa) :
    ∀ o, Part.object o ∈ [Part.object l] → o.object.isa = isa := by
  intro o ho
  rw [Part.object.inj (List.mem_singleton.mp ho), h]

theorem isa_productLines : productLines.object.isa = "PBXFileReference" := by decide +kernel

theorem isa_loneLines : loneLines.object.isa = "PBXProject" := by decide +kernel

theorem isKindName_fileReference : IsKindName "PBXFileReference" := isKindName_of_word (by decide) (by decide)

/-- A project that has no targets, with that file. -/
def productLayout : Layout where
  head := "\x7b\n\tobjects = \x7b\n".toList
  blocks := [
    .kind {
      isa := "PBXFileReference"
      parts := [.object productLines]
      isa_ne := isKindName_fileReference.nonempty
      isa_word := isKindName_fileReference.word
      own := isa_of_mem_singleton isa_productLines },
    .kind {
      isa := "PBXProject"
      parts := [.object loneLines]
      isa_ne := isKindName_project.nonempty
      isa_word := isKindName_project.word
      own := isa_of_mem_singleton isa_loneLines }]
  indent := ['\t']
  foot := ";\n\trootObject = P1;\n\x7d\n".toList
  root := emptyLayout.root
  head_lines := groupsLayout.head_lines
  head_single := groupsLayout.head_single
  head_unmarked := groupsLayout.head_unmarked
  indent_isIndent := groupsLayout.indent_isIndent
  emptied := emptyLayout.emptied
  isas_nodup := by decide
  ids_nodup := by decide +kernel

/-- The project of a library that builds the product. -/
def productProject : String :=
  "\x7bobjects=\x7bT=\x7bisa=PBXNativeTarget;productType=\"com.apple.product-type.library.static\";" ++
    "productReference=R;\x7d;R=\x7bisa=PBXFileReference;path=libX.a;\x7d;\x7d;rootObject=T;\x7d"

/-- An app with the file, and the library. -/
def productWorkspace : Workspace where
  tree := {
    root := .folder [
      ("ios", .folder [("App.xcodeproj", .folder [("project.pbxproj", .file (String.ofList productLayout.text).toUTF8)])]),
      ("foo", .folder [("Foo.xcodeproj", .folder [("project.pbxproj", .file productProject.toUTF8)])])]
    here := ⟨"/", []⟩ }

theorem readText_productApp :
    productWorkspace.tree.readText (plainApp none).projectFile = .ok (String.ofList productLayout.text) :=
  Tree.readText_of_hasFile (show Tree.HasFile _ _ ["ios", "App.xcodeproj", "project.pbxproj"] _ from ⟨rfl, rfl⟩)

theorem readText_productProject : productWorkspace.tree.readText (projectFile fooProject) = .ok productProject :=
  Tree.readText_of_hasFile (show Tree.HasFile _ _ ["foo", "Foo.xcodeproj", "project.pbxproj"] _ from ⟨rfl, rfl⟩)

/-- Unlinking the library on the graphs that the two files hold. -/
def unlinkProduct (g built : Graph) : Except Fault Unit × Graph :=
  (unlinkProject productWorkspace.tree "foo" (plainApp none) (plainLibrary (.project fooProject)) fooProject built []).run g

/-- Where there is no main group and no application, only references to products can be removed. -/
theorem heldAsLinked_of_none (hmain : g.mainGroup = .ok none) (htargets : g.applicationTargets = .ok [])
    (hnobody : ∀ product ∈ products, g.HeldOnly (Digest.stableId (productSeed name product)) fun _ _ => False) :
    HeldAsLinked g app name projectName products [] where
  projects group hfind := by
    obtain ⟨main, hsome, -⟩ := Graph.findGroup_eq_some_iff.mp hfind
    rw [hmain] at hsome
    exact absurd (Except.ok.inj hsome) (Option.some_ne_none main).symm
  groups n _ group hunder := by
    obtain ⟨main, -, hsome, -⟩ := hunder
    rw [hmain] at hsome
    exact absurd (Except.ok.inj hsome) (Option.some_ne_none main).symm
  buildFiles targets hsome target htarget := by
    rw [htargets] at hsome
    obtain rfl := Except.ok.inj hsome
    exact absurd htarget List.not_mem_nil
  references product hproduct o ho place hin := (hnobody product hproduct o ho place hin).elim
  systemFiles library hlibrary := absurd hlibrary List.not_mem_nil
  systemBuildFiles library hlibrary := absurd hlibrary List.not_mem_nil

/-- The file is removed. -/
theorem isClosed_of_unregister_product :
    ∃ g₀ w' g, ProjectFile.load productWorkspace.tree (plainApp none).projectFile = .ok g₀ ∧ g₀.IsClosed ∧
      (unregister "foo" (plainLibrary (.project fooProject)) (plainApp none) []).run productWorkspace = (.ok [], w') ∧
      ProjectFile.load w'.tree (plainApp none).projectFile = .ok g ∧ g.IsClosed := by
  have hstate : (Graph.load (plainApp none).projectFile.toString productLayout.text).toOption.any (fun g₀ =>
      (Graph.load (projectFile fooProject).toString productProject.toList).toOption.any fun built =>
        (decide g₀.IsClosed && decide (g₀.HeldOnly (Digest.stableId (productSeed "foo" "libX.a")) fun _ _ => False)) &&
        ((unlinkProduct g₀ built).1.isOk && (unlinkProduct g₀ built).2.serialise.isOk) &&
        (g₀.mainGroup.toOption.any Option.isNone && g₀.applicationTargets.toOption.any List.isEmpty) &&
        (built.products staticLibraryType).toOption.any (· == ["libX.a"])) = true := by
    decide +kernel
  simp only [Option.any_eq_true, Bool.and_eq_true, decide_eq_true_eq] at hstate
  obtain ⟨g₀, hload, built, hbuilt, ⟨⟨⟨hclosed, hnobody⟩, hunlinks, hwrites⟩, ⟨m, hm, hmain⟩, targets, ht, htargets⟩, ps, hps,
    hproducts⟩ := hstate
  have hread := readText_productApp
  have hload' : ProjectFile.load productWorkspace.tree (plainApp none).projectFile = .ok g₀ := by
    rw [load_eq_of_readText hread, String.toList_ofList, ok_of_toOption hload]
  have hbuilt' : ProjectFile.load productWorkspace.tree (projectFile fooProject) = .ok built := by
    rw [load_eq_of_readText readText_productProject, ok_of_toOption hbuilt]
  have hheld : ∀ built products, ProjectFile.load productWorkspace.tree (projectFile fooProject) = .ok built →
      built.products staticLibraryType = .ok products →
        HeldAsLinked g₀ (plainApp none) "foo" fooProject.name products [] := by
    intro built' products hbuilt'' hproducts'
    obtain rfl := Except.ok.inj (hbuilt'.symm.trans hbuilt'')
    obtain rfl := Except.ok.inj ((ok_of_toOption hps).symm.trans hproducts')
    obtain rfl := eq_of_beq hproducts
    refine heldAsLinked_of_none (by rw [ok_of_toOption hm, Option.isNone_iff_eq_none.mp hmain])
      (by rw [ok_of_toOption ht, List.isEmpty_iff.mp htargets]) fun product hproduct => ?_
    obtain rfl := List.mem_singleton.mp hproduct
    exact hnobody
  have hloaded : Loaded productLayout g₀ := loaded_of_load (ok_of_toOption hload)
  have hfollows : Follows g₀ (unlinkProduct g₀ built).2 :=
    keeps_unlinkProject (stable_follows _ g₀) _ g₀ hloaded.follows
  obtain ⟨u, hedits⟩ := run_eq_of_isOk hunlinks
  obtain ⟨text, htext⟩ : ∃ text, (unlinkProduct g₀ built).2.serialise = .ok text := by
    cases h : (unlinkProduct g₀ built).2.serialise with
    | error => rw [h] at hwrites; exact absurd hwrites Bool.false_ne_true
    | ok text => exact ⟨text, rfl⟩
  obtain ⟨w', hedited⟩ : ∃ w', (editProject (plainApp none) fooProject fun t built =>
      unlinkProject t "foo" (plainApp none) (plainLibrary (.project fooProject)) fooProject built []).run productWorkspace =
        (.ok u, w') := exists_run_editProject hread hload' hbuilt' hedits hfollows htext
  have hrun : (unregister "foo" (plainLibrary (.project fooProject)) (plainApp none) []).run productWorkspace =
      (.ok [], w') := run_bind_ok hedited
  obtain ⟨-, -, -, hfile⟩ := isClosed_of_unregister rfl hload' hclosed hheld hrun
  obtain ⟨g, hload'', hclosed'⟩ := hfile productLayout hread
  exact ⟨g₀, w', g, hload', hclosed, hrun, hload'', hclosed'⟩

end Ios
end ModuleLink
