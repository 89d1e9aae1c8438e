import ModuleLink.Proofs.Ios.LinkedProject
import ModuleLink.Proofs.Ios.Removals

/-!
The project of a library taken out of the project file of an app.  Nothing lists it any more, as long as only the group
that is looked at has listed it.
-/

namespace ModuleLink
namespace Ios

open Plist Xcode Editing Attempt Workspace

variable {name projectName : String} {fits : Option String → Bool} {P : Graph → Prop} {app : App} {library : Library}
  {project : Path} {t : Tree} {g₀ g g' built : Graph} {group : Object} {L : Layout} {w w' : Workspace}

/-! ## Entries -/

/-- Entries are taken out one by one, and the files they stand for are removed. -/
theorem marks_of_unlist (hP : Stable Change.IsRemoving P) {entries : List String} {u : PUnit}
    (h : (forIn entries PUnit.unit fun entry _ => do
      let _ ← detach group.id "children" entry
      let _ ← remove entry
      pure (ForInStep.yield PUnit.unit) : Editing PUnit).run g = (.ok u, g')) (hg : P g)
    (hmarks : g.Marks fits projectName fun id value => id = group.id ∧ value ∈ entries) :
    P g' ∧ g'.Marks fits projectName fun _ _ => False := by
  induction entries generalizing g with
  | nil =>
    obtain ⟨-, rfl⟩ := run_pure_eq_ok h
    exact ⟨hg, fun o ho s hs hcomment => absurd (hmarks o ho s hs hcomment).2 List.not_mem_nil⟩
  | cons entry entries ih =>
    rw [List.forIn_cons] at h
    obtain ⟨step, g₂, hstep, h⟩ := run_bind_eq_ok h
    obtain ⟨_, g₁, hdetach, hstep⟩ := run_bind_eq_ok hstep
    obtain ⟨_, _, hremove, hstep⟩ := run_bind_eq_ok hstep
    obtain ⟨rfl, rfl⟩ := run_pure_eq_ok hstep
    have hg₁ := keeps_detachChild hP group.id entry g hg
    have hg₂ := keeps_remove_of_stable hP entry g₁ (by rw [hdetach] at hg₁; exact hg₁)
    rw [hremove] at hg₂
    rw [run_detach, Prod.mk.injEq] at hdetach
    rw [run_remove, Prod.mk.injEq] at hremove
    obtain ⟨-, rfl⟩ := hdetach
    obtain ⟨-, rfl⟩ := hremove
    refine ih h hg₂ (Graph.Marks.shrunk (fun o ho s hs hcomment => ?_) (Change.shrunk_apply trivial))
    have hkind : (Change.removeRef group.id "children" entry).IsRemoving := show "children" ∉ Object.faceKeys by decide
    obtain ⟨hid, hin⟩ := hmarks.shrunk (Change.shrunk_apply hkind) o ho s hs hcomment
    refine ⟨hid, (List.mem_cons.mp hin).resolve_left ?_⟩
    have hget := ho.get?
    rw [hid] at hget
    exact Graph.ne_of_mem_removeRef hget hs

theorem stable_marks (hP : Stable Change.IsRemoving P) :
    Stable Change.IsRemoving fun g => P g ∧ g.Marks fits projectName fun _ _ => False :=
  hP.and fun _ _ _ hmarks _ hc => hmarks.shrunk (Change.shrunk_apply hc)

/-- A project that only the first group of the name lists is listed nowhere when it is taken out. -/
theorem marks_of_unlistProject (hP : Stable Change.IsRemoving P) {libraryFolder : Setting}
    (hfind : g.findGroup (bearsName libraryFolder) = .ok (some group))
    (honly : g.Marks (bearsName libraryFolder) projectName fun id _ => id = group.id)
    (h : (unlistProject libraryFolder projectName).run g = (.ok (), g')) (hg : P g) :
    P g' ∧ g'.Marks (bearsName libraryFolder) projectName fun _ _ => False := by
  obtain ⟨found, g₁, hfound, h⟩ := run_bind_eq_ok h
  rw [findGroup, run_ask, Prod.mk.injEq] at hfound
  obtain ⟨hfound, rfl⟩ := hfound
  obtain rfl := Except.ok.inj (hfind.symm.trans hfound)
  obtain ⟨u, g₂, hloop, h⟩ := run_bind_eq_ok h
  have hmarks : g.Marks (bearsName libraryFolder) projectName
      fun id value => id = group.id ∧ value ∈ entriesFor group projectName := by
    intro o ho s hs hcomment
    have hid := honly o ho s hs hcomment
    have hget := ho.get?
    rw [hid, (Graph.get?_of_findGroup hfind).1] at hget
    obtain rfl := Option.some.inj hget
    exact ⟨rfl, List.mem_map_of_mem (List.mem_filter.mpr ⟨hs, beq_iff_eq.mpr hcomment⟩)⟩
  have hg₂ := marks_of_unlist hP hloop hg hmarks
  have hkept := run_of_keeps (keeps_dropGroup (stable_marks hP) _ _) h hg₂
  exact hkept

/-! ## The project object -/

/-- A group that is dropped is not the project. -/
theorem project_of_dropGroup {name : GroupName} {found : Option Object} (hfind : g.findGroup name.fits = .ok found)
    (hkind : ∀ project, g.project = .ok project → project.isa ≠ "PBXGroup")
    (h : (dropGroup found name).run g = (.ok (), g')) : ∃ project, g'.project = .ok project := by
  obtain ⟨main, hmain, -⟩ := ok_of_bind hfind
  obtain ⟨project, hproject, -⟩ := ok_of_bind hmain
  cases found with
  | none =>
    obtain ⟨-, rfl⟩ := run_pure_eq_ok h
    exact ⟨project, hproject⟩
  | some group =>
    rw [dropGroup] at h
    split at h
    · obtain ⟨-, rfl⟩ := run_pure_eq_ok h
      exact ⟨project, hproject⟩
    · obtain ⟨s, hroot, hget⟩ := Graph.project_eq_ok_iff.mp hproject
      obtain ⟨hgroup, hisa, -⟩ := Graph.get?_of_findGroup hfind
      have hne : s.value ≠ group.id := by
        intro e
        rw [e, hgroup] at hget
        obtain rfl := Option.some.inj hget
        exact hkind _ hproject hisa
      -- Before the group is removed, the project is where it was.
      have hremoved {g₁ : Graph} (hroot₁ : g₁.root.get? "rootObject" = some (.scalar s))
          (hget₁ : ∃ o, g₁.get? s.value = some o)
          (h : (do let _ ← remove group.id; pure () : Editing Unit).run g₁ = (.ok (), g')) :
          ∃ project, g'.project = .ok project := by
        obtain ⟨o, hget₁⟩ := hget₁
        obtain ⟨_, g₂, hremove, h⟩ := run_bind_eq_ok h
        rw [run_remove, Prod.mk.injEq] at hremove
        obtain ⟨-, rfl⟩ := hremove
        obtain ⟨-, rfl⟩ := run_pure_eq_ok h
        refine ⟨o, Graph.project_eq_ok_iff.mpr ⟨s, ?_, ?_⟩⟩
        · show (g₁.removeObject group.id).1.root.get? "rootObject" = _
          rw [Change.root_removeObject, hroot₁]
        · show (g₁.removeObject group.id).1.get? s.value = _
          rw [Change.get?_removeObject, if_neg hne, hget₁]
      obtain ⟨main', g₁, hask, h⟩ := run_bind_eq_ok h
      rw [run_ask, Prod.mk.injEq] at hask
      obtain ⟨-, rfl⟩ := hask
      cases main' with
      | none => exact hremoved hroot ⟨project, hget⟩ h
      | some main' =>
        obtain ⟨_, g₂, hdetach, h⟩ := run_bind_eq_ok h
        rw [run_detach, Prod.mk.injEq] at hdetach
        obtain ⟨-, rfl⟩ := hdetach
        have hshrunk := Change.shrunk_apply (g := g)
          (show (Change.removeRef main'.id "children" group.id).IsRemoving from show "children" ∉ Object.faceKeys by decide)
        exact hremoved (hshrunk.root.trans hroot) (Graph.exists_get?_removeRef _ _ _ hget) h

theorem keeps_project_removeHeaderSettings (headers : List Path) (path : Except Fault String) :
    Keeps (fun g => ∃ project, g.project = .ok project) (changeHeaderSettings headers path Graph.removeSetting) := by
  rw [changeHeaderSettings]
  split
  · refine (keeps_ofExcept _).bind fun path => (keeps_ask _).bind fun configurations => ?_
    refine (keeps_forIn (fun configuration _ _ => Keeps.bind ?_ fun _ => keeps_pure _) _).bind fun _ => keeps_pure _
    rintro g ⟨project, hproject⟩
    exact (Change.grown_changeSettings (fun _ => true) configuration.id _).project hproject
  · exact keeps_pure _

/-! ## Unlinking -/

/-- Unlinking leads to a graph that can be written, lists the project nowhere, and is still that of a project. -/
theorem marks_of_unlinkProject {needed : List String} (hfollows : Follows g₀ g₀)
    (hkind : ∀ project, g₀.project = .ok project → project.isa ≠ "PBXGroup")
    (hfind : g₀.findGroup (bearsName app.libraryFolder) = .ok (some group))
    (honly : g₀.Marks (bearsName app.libraryFolder) project.name fun id _ => id = group.id)
    (h : (unlinkProject t name app library project built needed).run g₀ = (.ok (), g)) :
    Follows g₀ g ∧ g.Marks (bearsName app.libraryFolder) project.name (fun _ _ => False) ∧
      ∃ project, g.project = .ok project := by
  have hstable : Stable Change.IsRemoving fun g => Follows g₀ g ∧ g₀.Shrunk g :=
    (stable_follows _ g₀).and fun g c _ hshrunk _ hc => hshrunk.trans (Change.shrunk_apply hc)
  have hmarked : Stable Change.IsRemoving fun g => (Follows g₀ g ∧ g₀.Shrunk g) ∧
      g.Marks (bearsName app.libraryFolder) project.name fun _ _ => False := stable_marks hstable
  obtain ⟨_, g₁, hunlist, h⟩ := run_bind_eq_ok h
  have hg₁ := marks_of_unlistProject hstable hfind honly hunlist ⟨hfollows, Graph.shrunk_refl g₀⟩
  obtain ⟨products, _, hask, h⟩ := run_bind_eq_ok h
  obtain ⟨-, rfl⟩ := Prod.mk.inj hask
  obtain ⟨_, g₂, hstatic, h⟩ := run_bind_eq_ok h
  have hg₂ := run_of_keeps (keeps_forIn (fun product _ _ => (keeps_removeStaticLibrary hmarked name product).bind
    fun _ => keeps_pure _) _) hstatic hg₁
  obtain ⟨_, g₄, hsystem, h⟩ := run_bind_eq_ok h
  obtain ⟨frameworks, _, hfound, hsystem⟩ := run_bind_eq_ok hsystem
  obtain ⟨-, rfl⟩ := Prod.mk.inj hfound
  obtain ⟨_, g₃, hlibraries, hsystem⟩ := run_bind_eq_ok hsystem
  have hg₃ := run_of_keeps (keeps_forIn (fun library _ _ => keeps_removeLibrary hmarked frameworks library) _) hlibraries hg₂
  obtain ⟨found, _, hfound, hdrop⟩ := run_bind_eq_ok hsystem
  rw [findGroup, run_ask, Prod.mk.injEq] at hfound
  obtain ⟨hfound, rfl⟩ := hfound
  have hg₄ := run_of_keeps (keeps_dropGroup hmarked found frameworksGroup) hdrop hg₃
  have hproject := project_of_dropGroup hfound (fun project' hproject' => ?_) hdrop
  · have hg := run_of_keeps (keeps_removeHeaderSettings hmarked _ _) h hg₄
    have hproject' := run_of_keeps (keeps_project_removeHeaderSettings _ _) h hproject
    exact ⟨hg.1.1, hg.2, hproject'⟩
  · obtain ⟨project, hproject, hrestricts⟩ := hg₃.1.2.project hproject'
    rw [hrestricts.isa]
    exact hkind project hproject

theorem run_listsProject_of_marks {libraryFolder : Setting}
    (hmarks : g.Marks (bearsName libraryFolder) projectName fun _ _ => False) {project : Object}
    (hproject : g.project = .ok project) : (listsProject libraryFolder projectName).run g = (.ok false, g) := by
  obtain ⟨found, hfound⟩ : ∃ found, g.findGroup (bearsName libraryFolder) = .ok found := by
    rw [Graph.findGroup, Graph.mainGroup, hproject]
    exact ⟨_, rfl⟩
  have hfind : (findGroup (groupName libraryFolder)).run g = (.ok found, g) := by
    rw [findGroup, run_ask]
    exact congrArg (·, g) hfound
  rw [listsProject, run_bind_ok hfind]
  cases found with
  | none => rfl
  | some group =>
    have hentries : (entriesFor group projectName).isEmpty = true :=
      entriesFor_isEmpty_iff.mpr (hmarks group (Graph.isUnder_of_findGroup hfound))
    simp only [hentries]
    rfl

theorem exists_findGroup_of_isInstalled (hroute : route app library = .projectEdits project)
    (hload : ProjectFile.load w.tree app.projectFile = .ok g) (h : (isInstalled app library).run w = (.ok true, w')) :
    ∃ group, g.findGroup (bearsName app.libraryFolder) = .ok (some group) := by
  rw [isInstalled, hroute] at h
  obtain ⟨_, _, hgraph, h⟩ := run_bind_eq_ok h
  rw [run_look, hload, Prod.mk.injEq, Except.ok.injEq] at hgraph
  obtain ⟨rfl, rfl⟩ := hgraph
  obtain ⟨⟨listed, g'⟩, _, hedited, h⟩ := run_bind_eq_ok h
  obtain ⟨rfl, -⟩ := run_pure_eq_ok h
  obtain ⟨found, _, hfound, hlists⟩ := run_bind_eq_ok (run_of_edited (Prod.mk.inj hedited).1)
  rw [findGroup, run_ask, Prod.mk.injEq] at hfound
  cases found with
  | none => exact absurd (run_pure_eq_ok hlists).1 Bool.false_ne_true
  | some group => exact ⟨group, hfound.1⟩

/-- A library whose project only the first group of the name lists counts as unlinked behind unlinking. -/
theorem isInstalled_of_unregister_projectEdits {others : List Library} {left : List String}
    (hroute : route app library = .projectEdits project)
    (hread : w.tree.readText app.projectFile = .ok (String.ofList L.text))
    (hkind : ∀ g₀ project, ProjectFile.load w.tree app.projectFile = .ok g₀ → g₀.project = .ok project →
      project.isa ≠ "PBXGroup")
    (honly : ∀ g₀ group, ProjectFile.load w.tree app.projectFile = .ok g₀ →
      g₀.findGroup (bearsName app.libraryFolder) = .ok (some group) →
      g₀.Marks (bearsName app.libraryFolder) project.name fun id _ => id = group.id)
    (hinstalled : (isInstalled app library).run w = (.ok true, w))
    (h : (unregister name library app others).run w = (.ok left, w')) :
    (isInstalled app library).run w' = (.ok false, w') := by
  rw [unregister, hroute] at h
  obtain ⟨_, _, hedited, h⟩ := run_bind_eq_ok h
  obtain ⟨-, rfl⟩ := run_pure_eq_ok h
  obtain ⟨g₀, built, g, hload, hbuilt, hedits, hsave⟩ := run_editProject_eq_ok hedited
  have hloaded : Loaded L g₀ := by
    rw [load_eq_of_readText hread, String.toList_ofList] at hload
    exact loaded_of_load hload
  obtain ⟨group, hfind⟩ := exists_findGroup_of_isInstalled hroute hload hinstalled
  obtain ⟨hfollows, hmarks, unlinked, hproject⟩ := marks_of_unlinkProject hloaded.follows
    (fun project => hkind g₀ project hload) hfind (honly g₀ group hload hfind) hedits
  obtain ⟨g', hload', hgrown, hshrunk⟩ := load_of_save hread hload hfollows hsave
  obtain ⟨project', hproject'⟩ := (hgrown fun _ => true).project hproject
  exact run_isInstalled_of_projectEdits hroute hload' (run_listsProject_of_marks (hmarks.shrunk hshrunk) hproject')

end Ios
end ModuleLink
