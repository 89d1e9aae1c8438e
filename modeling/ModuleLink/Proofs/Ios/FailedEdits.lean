import ModuleLink.Proofs.Ios.UnlinkedProject
import ModuleLink.Proofs.Xcode.LoadFaults

/-!
Linking and unlinking that end in a fault.  The project file is written before it is read again, so a fault leaves it as it
was unless what was written is no project.  A project in Xcode layout is always left as it was, as long as the names of
the library can be written.
-/

namespace ModuleLink

namespace Xcode

variable {source : String} {text : List Char} {g : Graph}

/-- Whether a text is a project does not depend on the file it is in. -/
theorem exists_load_of_load (h : Graph.load source text = .ok g) (source' : String) :
    ∃ g', Graph.load source' text = .ok g' := by
  obtain ⟨root, tables, last, os, hdocument, hlast, hos, hlisted, -⟩ := load_eq_ok_iff.mp h
  obtain ⟨hids, hdicts⟩ := dict_of_objectsOf hos
  obtain ⟨os', hos', hids', -⟩ : ∃ os', objectsOf source' (Plist.Dict.ofMembers last.members) = .ok os' ∧ _ := exists_objectsOf hdicts
  refine ⟨_, load_eq_ok_iff.mpr ⟨root, tables, last, os', hdocument, hlast, hos', fun t ht m hm => ?_, rfl⟩⟩
  rw [hids', ← hids]
  exact hlisted t ht m hm

end Xcode

namespace Ios

open Plist Xcode Editing Attempt Workspace

variable {α : Type} {name : String} {app : App} {library : Library} {project : Path} {t : Tree} {g₀ g built : Graph}
  {P : Graph → Prop} {f : Fault} {w w' : Workspace} {edits : Tree → Graph → Editing α}

/-! ## What is written before the fault -/

/-- A fault behind the writing comes from reading what was written. -/
theorem run_save_eq_error {names : List String} {old : ByteArray} (hfile : w.tree.HasFile app.projectFile names old)
    (h : (ProjectFile.save app.projectFile g).run w = (.error f, w')) :
    w' = w ∨ ∃ text, g.serialise = .ok text ∧ Graph.load g.source text = .error f ∧
      w'.tree.readText app.projectFile = .ok (String.ofList text) := by
  rw [ProjectFile.save] at h
  split at h
  · rcases hserialise : g.serialise with e | text
    · rw [run_bind_error (by rw [run_ofExcept, hserialise])] at h
      exact .inl (Prod.mk.inj h).2.symm
    · rw [run_bind_ok (by rw [run_ofExcept, hserialise]), run_bind_ok (run_writeText hfile _)] at h
      rcases hload : Graph.load g.source text with e | g'
      · rw [run_bind_error (by rw [run_ofExcept, hload])] at h
        obtain ⟨hf, rfl⟩ := Prod.mk.inj h
        obtain rfl := Except.error.inj hf
        exact .inr ⟨text, rfl, hload, Tree.readText_of_hasFile (hfile.overwrite _)⟩
      · rw [run_bind_ok (by rw [run_ofExcept, hload])] at h
        exact absurd h run_pure_ne_error
  · exact absurd h run_pure_ne_error

/-- Edits that end in a fault leave the workspace alone, or have written a text that is no project. -/
theorem run_editProject_eq_error (hload : ProjectFile.load w.tree app.projectFile = .ok g₀)
    (h : (editProject app project edits).run w = (.error f, w')) :
    w' = w ∨ ∃ built a g text, ProjectFile.load w.tree (projectFile project) = .ok built ∧
      (edits w.tree built).run g₀ = (.ok a, g) ∧ g.serialise = .ok text ∧ Graph.load g.source text = .error f ∧
      w'.tree.readText app.projectFile = .ok (String.ofList text) := by
  rw [editProject, run_bind_ok (run_get w), run_bind_ok (by rw [run_look, hload])] at h
  rcases hbuilt : ProjectFile.load w.tree (projectFile project) with e | built
  · rw [run_bind_error (by rw [run_look, hbuilt])] at h
    exact .inl (Prod.mk.inj h).2.symm
  · rw [run_bind_ok (by rw [run_look, hbuilt])] at h
    rcases hedited : ProjectFile.edited (edits w.tree built) g₀ with e | ⟨a, g⟩
    · rw [run_bind_error (by rw [run_ofExcept, hedited])] at h
      exact .inl (Prod.mk.inj h).2.symm
    · rw [run_bind_ok (by rw [run_ofExcept, hedited])] at h
      obtain ⟨names, content, hfile⟩ := exists_hasFile_of_load hload
      rcases hsave : (ProjectFile.save app.projectFile g).run w with ⟨e | u, w₁⟩
      · rw [run_bind_error hsave] at h
        obtain ⟨he, rfl⟩ := Prod.mk.inj h
        obtain rfl := Except.error.inj he
        refine (run_save_eq_error hfile hsave).imp_right ?_
        rintro ⟨text, hserialise, hagain, hread⟩
        exact ⟨built, a, g, text, rfl, run_of_edited hedited, hserialise, hagain, hread⟩
      · rw [run_bind_ok hsave] at h
        exact absurd h run_pure_ne_error

/-- After a fault the workspace is as it was where there still is a project, and only there. -/
theorem tree_eq_iff_loads (hload : ProjectFile.load w.tree app.projectFile = .ok g₀)
    (h : (editProject app project edits).run w = (.error f, w')) :
    w'.tree = w.tree ↔ ∃ g, ProjectFile.load w'.tree app.projectFile = .ok g := by
  refine ⟨fun htree => ⟨g₀, by rw [htree, hload]⟩, fun ⟨g, hloads⟩ => ?_⟩
  rcases run_editProject_eq_error hload h with rfl | ⟨-, -, g₁, text, -, -, -, hagain, hread⟩
  · rfl
  · rw [load_eq_of_readText hread, String.toList_ofList] at hloads
    obtain ⟨g', hok⟩ := exists_load_of_load hloads g₁.source
    rw [hok] at hagain
    contradiction

/-- Edits of a project in Xcode layout that make proper changes leave the workspace alone when they end in a fault. -/
theorem tree_eq_of_follows {L : Layout} (hread : w.tree.readText app.projectFile = .ok (String.ofList L.text))
    (hload : ProjectFile.load w.tree app.projectFile = .ok g₀)
    (hedits : ∀ built, ProjectFile.load w.tree (projectFile project) = .ok built →
      Keeps (Follows g₀) (edits w.tree built))
    (h : (editProject app project edits).run w = (.error f, w')) : w'.tree = w.tree := by
  rcases run_editProject_eq_error hload h with rfl | ⟨built, a, g, text, hbuilt, hrun, hserialise, hagain, -⟩
  · rfl
  · rw [load_eq_of_readText hread, String.toList_ofList] at hload
    have hloaded := loaded_of_load hload
    have hfollows := run_of_keeps (hedits built hbuilt) hrun hloaded.follows
    obtain ⟨g', hload', -⟩ := hfollows.load_serialise hloaded hserialise g.source
    rw [hload'] at hagain
    contradiction

/-! ## Linking and unlinking -/

/-- Whatever linking does, it only adds. -/
theorem keeps_linkProject (hP : Stable (Change.IsAdding fun _ => false) P)
    (hwrites : Writes t app library project built) : Keeps P (linkProject t name app library project built) := by
  obtain ⟨⟨folder, hfolder, htitle⟩, hproject, hpath, hproducts, hlibraries⟩ := hwrites
  have hgroup (name : GroupName) : (groupChange name).IsAdding fun _ => false := fun _ _ _ _ _ => rfl
  rw [linkProject, hfolder]
  refine (keeps_ensureGroup hP (groupName_isProper htitle) (.inr (hgroup _)) fun owner ref =>
    (show "children" ∉ Object.faceKeys by decide)).bind fun group => ?_
  cases group with
  | none => exact keeps_pure _
  | some group =>
    refine (keeps_listProject hP hproject hpath group name).bind fun _ => Gives.keeps (Q := fun _ => True) ?_
    refine Gives.bind (Q := fun ps => built.products staticLibraryType = .ok ps) (fun g hg => ⟨hg, fun ps h => h⟩)
      fun ps hps => Keeps.gives ?_
    refine (keeps_addStaticLibraries hP (hproducts ps hps) name).bind fun left => ?_
    refine (keeps_addSystemLibraries hP hlibraries (.inr (hgroup _))).bind fun _ => ?_
    exact (keeps_addHeaderSettings hP t.here app.sourceDir (findHeaders t library.folder)).bind fun _ => keeps_pure left

/-- Whatever unlinking does, it only removes. -/
theorem keeps_unlinkProject (hP : Stable Change.IsRemoving P) (needed : List String) :
    Keeps P (unlinkProject t name app library project built needed) := by
  refine Keeps.bind ?_ fun _ => (keeps_ofExcept _).bind fun products => ?_
  · refine (keeps_ask _).bind fun group => ?_
    cases group with
    | none => exact keeps_pure _
    | some group =>
      refine (keeps_forIn (fun entry _ _ => ?_) _).bind fun _ => keeps_dropGroup hP _ _
      exact (keeps_detachChild hP _ _).bind fun _ => (keeps_remove_of_stable hP _).bind fun _ => keeps_pure _
  · refine (keeps_forIn (fun product _ _ => (keeps_removeStaticLibrary hP name product).bind fun _ => keeps_pure _)
      _).bind fun _ => ?_
    refine Keeps.bind ?_ fun _ => keeps_removeHeaderSettings hP _ _
    refine (keeps_ask _).bind fun frameworks => (keeps_forIn (fun library _ _ => keeps_removeLibrary hP frameworks library)
      _).bind fun _ => ?_
    exact (keeps_ask _).bind fun found => keeps_dropGroup hP found frameworksGroup

/-- Linking or unlinking by edits of a project file that ends in a fault leaves all files as they were exactly where the
project file still holds a project.  It always does in Xcode layout, as long as the names that linking writes can stand
in a project. -/
theorem tree_of_projectEdits_fault {step : Step (List String)} (hroute : route app library = .projectEdits project)
    (hload : ProjectFile.load w.tree app.projectFile = .ok g₀)
    (hstep : step = register name library app ∨ ∃ others, step = unregister name library app others)
    (h : step.run w = (.error f, w')) :
    (w'.tree = w.tree ↔ ∃ g, ProjectFile.load w'.tree app.projectFile = .ok g) ∧
      ∀ L : Layout, w.tree.readText app.projectFile = .ok (String.ofList L.text) →
        (step = register name library app → ∀ built, ProjectFile.load w.tree (projectFile project) = .ok built →
          Writes w.tree app library project built) → w'.tree = w.tree := by
  rcases hstep with rfl | ⟨others, rfl⟩
  · rw [register, hroute] at h
    refine ⟨tree_eq_iff_loads hload h, fun L hread hwrites => tree_eq_of_follows hread hload (fun built hbuilt => ?_) h⟩
    exact keeps_linkProject (stable_follows _ g₀) (hwrites rfl built hbuilt)
  · rw [unregister, hroute, run_bind] at h
    rcases hedits : (editProject app project fun t built => unlinkProject t name app library project built
      (others.flatMap Library.systemLibraries)).run w with ⟨e | u, w₁⟩
    · rw [hedits] at h
      obtain ⟨-, rfl⟩ := Prod.mk.inj h
      refine ⟨tree_eq_iff_loads hload hedits, fun L hread _ => tree_eq_of_follows hread hload (fun built _ => ?_) hedits⟩
      exact keeps_unlinkProject (stable_follows _ g₀) _
    · rw [hedits] at h
      exact absurd h run_pure_ne_error

/-- A project that is not there. -/
def missingProject : Path := ⟨"", ["foo", "Bar.xcodeproj"]⟩

/-- A library whose project is not there cannot be linked, and nothing changes. -/
theorem tree_of_projectEdits_fault_missing :
    ∃ g₀ f w', ProjectFile.load (plainWorkspace "").tree (plainApp none).projectFile = .ok g₀ ∧
      (register "foo" (plainLibrary (.project missingProject)) (plainApp none)).run (plainWorkspace "") =
        (.error f, w') ∧ w'.tree = (plainWorkspace "").tree := by
  have hread := readText_plainApp ""
  have hroute : route (plainApp none) (plainLibrary (.project missingProject)) = .projectEdits missingProject := rfl
  obtain ⟨g₀, hload, -⟩ := emptyLayout.load_text (plainApp none).projectFile.toString
  have hload : ProjectFile.load (plainWorkspace "").tree (plainApp none).projectFile = .ok g₀ := by
    rw [load_eq_of_readText hread, String.toList_ofList, hload]
  obtain ⟨f, hmissing⟩ : ∃ f, ProjectFile.load (plainWorkspace "").tree (projectFile missingProject) = .error f :=
    ⟨_, rfl⟩
  have hrun : (register "foo" (plainLibrary (.project missingProject)) (plainApp none)).run (plainWorkspace "") =
      (.error f, plainWorkspace "") := by
    rw [register, hroute]
    simp only
    rw [editProject, run_bind_ok (run_get _), run_bind_ok (by rw [run_look, hload]),
      run_bind_error (by rw [run_look, hmissing])]
  refine ⟨g₀, f, _, hload, hrun, ?_⟩
  exact (tree_of_projectEdits_fault hroute hload (.inl rfl) hrun).2 emptyLayout hread fun _ built hbuilt =>
    absurd (hmissing.symm.trans hbuilt) (by simp)

end Ios
end ModuleLink
