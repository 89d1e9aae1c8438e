import ModuleLink.Proofs.Ios.LibraryGroup
import ModuleLink.Proofs.Ios.Podfile

/-!
The project of a library in the project file of an app, from one run to the next: linking lists it in the group for
libraries, and what is written is read as a project that lists it there.
-/

namespace ModuleLink
namespace Ios

open Plist Xcode Editing Attempt Workspace

variable {folder name : String} {fits : Option String → Bool} {app : App} {library : Library} {project : Path}
  {t : Tree} {g₀ g built : Graph} {L : Layout} {w w' : Workspace}

/-! ## Edits of the project file -/

theorem run_of_edited {α : Type} {edits : Editing α} {a : α} (h : ProjectFile.edited edits g₀ = .ok (a, g)) :
    edits.run g₀ = (.ok a, g) := by
  rw [ProjectFile.edited] at h
  rcases hrun : edits.run g₀ with ⟨f | b, g'⟩
  · rw [hrun] at h
    contradiction
  · rw [hrun] at h
    obtain ⟨rfl, rfl⟩ := Prod.mk.inj (Except.ok.inj h)
    rfl

/-- Edits that come to a value were made on the graph that the project file holds, and what they lead to was saved. -/
theorem run_editProject_eq_ok {α : Type} {edits : Tree → Graph → Editing α} {a : α}
    (h : (editProject app project edits).run w = (.ok a, w')) :
    ∃ g₀ built g, ProjectFile.load w.tree app.projectFile = .ok g₀ ∧
      ProjectFile.load w.tree (projectFile project) = .ok built ∧ (edits w.tree built).run g₀ = (.ok a, g) ∧
      (ProjectFile.save app.projectFile g).run w = (.ok (), w') := by
  obtain ⟨_, _, hget, h⟩ := run_bind_eq_ok h
  obtain ⟨rfl, rfl⟩ := run_pure_eq_ok hget
  obtain ⟨g₀, _, hgraph, h⟩ := run_bind_eq_ok h
  obtain ⟨hload, rfl⟩ := Prod.mk.inj hgraph
  obtain ⟨built, _, hbuilt, h⟩ := run_bind_eq_ok h
  obtain ⟨hload', rfl⟩ := Prod.mk.inj hbuilt
  obtain ⟨⟨b, g⟩, _, hedited, h⟩ := run_bind_eq_ok h
  obtain ⟨hedits, rfl⟩ := Prod.mk.inj hedited
  obtain ⟨_, w₁, hsave, h⟩ := run_bind_eq_ok h
  obtain ⟨rfl, rfl⟩ := run_pure_eq_ok h
  exact ⟨g₀, built, g, hload, hload', run_of_edited hedits, hsave⟩

/-- A graph is in a file with a text. -/
theorem exists_hasFile_of_load {file : Path} (h : ProjectFile.load w.tree file = .ok g) :
    ∃ names content, w.tree.HasFile file names (String.toUTF8 content) := by
  rw [ProjectFile.load] at h
  split at h
  next content hread =>
    obtain ⟨names, hfile⟩ := Tree.hasFile_of_readText hread
    exact ⟨names, content, hfile⟩
  all_goals contradiction

theorem load_eq_of_readText {p : Path} {s : String} (h : t.readText p = .ok s) :
    ProjectFile.load t p = Graph.load p.toString s.toList := by
  rw [ProjectFile.load, h]

/-- What was saved is read as it is in memory, or nothing was changed. -/
theorem exists_load_of_save (hread : w.tree.readText app.projectFile = .ok (String.ofList L.text))
    (hload : ProjectFile.load w.tree app.projectFile = .ok g₀) (h : Follows g₀ g)
    (hsave : (ProjectFile.save app.projectFile g).run w = (.ok (), w')) :
    ∃ g', ProjectFile.load w'.tree app.projectFile = .ok g' ∧
      (Matches g g' ∨ g' = g₀ ∧ g.isModified = false) := by
  rw [ProjectFile.save] at hsave
  split at hsave
  next hmodified =>
    obtain ⟨text, _, htext, hsave⟩ := run_bind_eq_ok hsave
    obtain ⟨hserialise, rfl⟩ := Prod.mk.inj htext
    obtain ⟨names, hfile⟩ := Tree.hasFile_of_readText hread
    rw [run_bind_ok (run_writeText hfile _)] at hsave
    obtain ⟨_, _, hagain, hsave⟩ := run_bind_eq_ok hsave
    obtain ⟨-, rfl⟩ := Prod.mk.inj hagain
    obtain ⟨-, rfl⟩ := run_pure_eq_ok hsave
    rw [load_eq_of_readText hread, String.toList_ofList] at hload
    obtain ⟨g', hload', hmatches, -, -⟩ := h.load_serialise (loaded_of_load hload) hserialise app.projectFile.toString
    refine ⟨g', ?_, .inl hmatches⟩
    rw [load_eq_of_readText (Tree.readText_of_hasFile (hfile.overwrite _)), String.toList_ofList, hload']
  next hmodified =>
    obtain ⟨-, rfl⟩ := run_pure_eq_ok hsave
    exact ⟨g₀, hload, .inr ⟨rfl, Bool.eq_false_iff.mpr hmodified⟩⟩

/-- What was saved is read as a graph that has neither lost nor gained anything. -/
theorem load_of_save (hread : w.tree.readText app.projectFile = .ok (String.ofList L.text))
    (hload : ProjectFile.load w.tree app.projectFile = .ok g₀) (h : Follows g₀ g)
    (hsave : (ProjectFile.save app.projectFile g).run w = (.ok (), w')) :
    ∃ g', ProjectFile.load w'.tree app.projectFile = .ok g' ∧ (∀ fits, g.Grown fits g') ∧ g.Shrunk g' := by
  obtain ⟨g', hload', hmatches | ⟨rfl, hunmodified⟩⟩ := exists_load_of_save hread hload h hsave
  · exact ⟨g', hload', hmatches.grown, hmatches.shrunk⟩
  · have hget := Graph.get?_of_unmodified h hunmodified
    have hroot := Graph.root_of_follows h
    exact ⟨g', hload', fun fits => Graph.grown_of_get? hroot.symm fun id => (hget id).symm,
      Graph.shrunk_of_get? hroot.symm fun id => (hget id).symm⟩

/-- Edits of a project in Xcode layout that come to a value come to it in the workspace, if the graph that they lead to
can be written. -/
theorem exists_run_editProject {α : Type} {edits : Tree → Graph → Editing α} {a : α} {text : List Char}
    (hread : w.tree.readText app.projectFile = .ok (String.ofList L.text))
    (hload : ProjectFile.load w.tree app.projectFile = .ok g₀)
    (hbuilt : ProjectFile.load w.tree (projectFile project) = .ok built) (hedits : (edits w.tree built).run g₀ = (.ok a, g))
    (h : Follows g₀ g) (htext : g.serialise = .ok text) :
    ∃ w', (editProject app project edits).run w = (.ok a, w') := by
  have hedited : ProjectFile.edited (edits w.tree built) g₀ = .ok (a, g) := by
    rw [ProjectFile.edited, hedits]
    rfl
  obtain ⟨w', hsave⟩ : ∃ w', (ProjectFile.save app.projectFile g).run w = (.ok (), w') := by
    rw [ProjectFile.save]
    split
    · obtain ⟨names, hfile⟩ := Tree.hasFile_of_readText hread
      rw [load_eq_of_readText hread, String.toList_ofList] at hload
      obtain ⟨g', hload', -⟩ := h.load_serialise (loaded_of_load hload) htext g.source
      rw [run_bind_ok (by rw [run_ofExcept, htext]), run_bind_ok (run_writeText hfile _),
        run_bind_ok (by rw [run_ofExcept, hload'])]
      exact ⟨_, rfl⟩
    · exact ⟨w, rfl⟩
  refine ⟨w', ?_⟩
  rw [editProject, run_bind_ok (run_get w), run_bind_ok (x := look _) (by rw [run_look, hload]),
    run_bind_ok (x := look _) (by rw [run_look, hbuilt]), run_bind_ok (by rw [run_ofExcept, hedited])]
  simp only
  rw [run_bind_ok hsave]
  rfl

/-! ## Linking -/

/-- A new group "Frameworks" is another one than the group for libraries. -/
theorem isAdding_frameworks (hne : folder ≠ "Frameworks") :
    (groupChange frameworksGroup).IsAdding (bearsName (.text folder)) := by
  intro g g' o hadd _
  obtain ⟨hlabel, -⟩ := label?_of_groupChange (by decide) hadd
  rw [hlabel]
  exact beq_eq_false_iff_ne.mpr fun e => hne (Option.some.inj e).symm

/-- The texts that linking writes into a project file can stand there. -/
structure Writes (t : Tree) (app : App) (library : Library) (project : Path) (built : Graph) : Prop where
  folder : ∃ folder, app.libraryFolder = .text folder ∧ IsTitle folder
  projectName : IsFileName project.name
  path : IsQuotable (Path.relative t.here project app.sourceDir).toString
  products : ∀ ps, built.products staticLibraryType = .ok ps → ∀ p ∈ ps, IsFileName p
  systemLibraries : ∀ l ∈ library.systemLibraries, IsFileName l

/-- Linking leads to a graph that can be written and lists the project. -/
theorem lists_of_linkProject (hwrites : Writes t app library project built) (hfollows : Follows g₀ g₀)
    (hchildren : ∀ o ∈ g₀.objects, o.isa = "PBXGroup" → ∀ ref ∈ o.refs "children", ref ∈ g₀.ids)
    (h : (linkProject t name app library project built).run g₀ = (.ok [], g)) :
    Follows g₀ g ∧ Lists g (bearsName app.libraryFolder) project.name := by
  obtain ⟨⟨folder, hfolder, htitle⟩, hproject, hpath, hproducts, hlibraries⟩ := hwrites
  rw [linkProject, hfolder] at h
  rw [hfolder]
  obtain ⟨group, g₁, hgroup, h⟩ := run_bind_eq_ok h
  cases group with
  | none => exact absurd (run_pure_eq_ok h).1 (by simp)
  | some group =>
    obtain ⟨hfind, hempty⟩ := findGroup_of_ensureGroup htitle hgroup
    have hfollows₁ : Follows g₀ g₁ := by
      have hkeeps := keeps_ensureGroup (stable_follows (fun _ => True) g₀) (groupName_isProper htitle)
        (.inr trivial) (fun _ _ => trivial) g₀ hfollows
      rwa [hgroup] at hkeeps
    obtain ⟨_, g₂, hlist, h⟩ := run_bind_eq_ok h
    have hstable := stable_follows (Change.IsAdding (bearsName (.text folder))) g₀
    have hfollows₂ : Follows g₀ g₂ := by
      have hkeeps := keeps_listProject hstable hproject hpath group name g₁ hfollows₁
      rwa [hlist] at hkeeps
    have hlists₂ : Lists g₂ (bearsName (.text folder)) project.name := by
      refine lists_of_listProject hfind (fun ref href => ?_) hproject hpath hlist
      rcases hempty with rfl | hempty
      · obtain ⟨hget, hisa, -⟩ := Graph.get?_of_findGroup hfind
        exact hchildren group (Graph.get?_mem hget).1 hisa ref href
      · rw [Object.refs, hempty] at href
        exact absurd href List.not_mem_nil
    -- Whatever else is linked, the project stays listed.
    have hP := hstable.and (Q := fun g => Lists g (bearsName (.text folder)) project.name)
      fun g c _ hlists _ hc => hlists.grown (Change.grown_apply hc)
    obtain ⟨products, g₃, hask, h⟩ := run_bind_eq_ok h
    obtain ⟨hps, rfl⟩ := Prod.mk.inj hask
    have hkeeps := ((keeps_addStaticLibraries hP (hproducts products hps) name).bind fun left =>
      (keeps_addSystemLibraries hP hlibraries ?_).bind fun _ =>
        (keeps_addHeaderSettings hP t.here app.sourceDir (findHeaders t library.folder)).bind fun _ =>
          keeps_pure left) g₂ ⟨hfollows₂, hlists₂⟩
    · rw [h] at hkeeps
      exact hkeeps
    · by_cases hframeworks : folder = "Frameworks"
      · subst hframeworks
        left
        rintro g ⟨-, group, hgroup, -⟩
        exact ⟨group, hgroup⟩
      · exact .inr (isAdding_frameworks hframeworks)

theorem run_isInstalled_of_projectEdits {b : Bool} (hroute : route app library = .projectEdits project)
    (hload : ProjectFile.load w.tree app.projectFile = .ok g)
    (hlists : (listsProject app.libraryFolder project.name).run g = (.ok b, g)) :
    (isInstalled app library).run w = (.ok b, w) := by
  rw [isInstalled, hroute]
  simp only
  rw [run_bind_ok (x := look _) (by rw [run_look, hload]), ProjectFile.edited, hlists]
  rfl

/-- A library whose project was linked into a project in Xcode layout, with nothing left to do by hand, counts as
linked. -/
theorem isInstalled_of_register_projectEdits (hroute : route app library = .projectEdits project)
    (hread : w.tree.readText app.projectFile = .ok (String.ofList L.text))
    (hchildren : ∀ g₀, ProjectFile.load w.tree app.projectFile = .ok g₀ →
      ∀ o ∈ g₀.objects, o.isa = "PBXGroup" → ∀ ref ∈ o.refs "children", ref ∈ g₀.ids)
    (hwrites : ∀ built, ProjectFile.load w.tree (projectFile project) = .ok built →
      Writes w.tree app library project built)
    (h : (register name library app).run w = (.ok [], w')) :
    (isInstalled app library).run w' = (.ok true, w') := by
  rw [register, hroute] at h
  obtain ⟨g₀, built, g, hload, hbuilt, hedits, hsave⟩ := run_editProject_eq_ok h
  have hloaded : Loaded L g₀ := by
    rw [load_eq_of_readText hread, String.toList_ofList] at hload
    exact loaded_of_load hload
  obtain ⟨hfollows, hlists⟩ := lists_of_linkProject (hwrites built hbuilt) hloaded.follows (hchildren g₀ hload) hedits
  obtain ⟨g', hload', hgrown, -⟩ := load_of_save hread hload hfollows hsave
  exact run_isInstalled_of_projectEdits hroute hload' (run_listsProject_of_lists (hlists.grown (hgrown _)))

/-! ## A library in an app -/

/-- A project whose main group is the group A1. -/
def emptyProject : Object := ⟨"P1", ⟨[("isa", .text "PBXProject"), ("mainGroup", .text "A1")], []⟩, none⟩

theorem emptyProject_isProper : emptyProject.IsProper where
  id := ⟨by decide, by decide⟩
  comment := by simp [emptyProject]
  fields := by
    have hword {s : String} (h : s.toList.all Text.isWord = true) : IsQuotable s :=
      isQuotable_of_word (List.all_eq_true.mp h)
    refine writable_plain (by decide) (fun e he => ?_) fun e he => ?_
    · rcases List.mem_cons.mp he with rfl | he
      · exact isQuotable_isa
      · obtain rfl := List.mem_singleton.mp he
        exact hword (by decide)
    · rcases List.mem_cons.mp he with rfl | he
      · exact writable_text (hword (by decide))
      · obtain rfl := List.mem_singleton.mp he
        exact writable_text (hword (by decide))

theorem isKindName_group : IsKindName "PBXGroup" := isKindName_of_word (by decide) (by decide)

def projectLines : ObjectLines :=
  .ofObject emptyProject emptyProject_isProper false ['\t', '\t'] firstGroup.indent_isIndent (by decide +kernel)

theorem isa_firstGroup : firstGroup.object.isa = "PBXGroup" := rfl

/-- A project with an empty main group. -/
def emptyLayout : Layout where
  head := "\x7b\n\tobjects = \x7b\n".toList
  blocks := [
    .kind {
      isa := "PBXGroup"
      parts := [.object firstGroup]
      isa_ne := isKindName_group.nonempty
      isa_word := isKindName_group.word
      own := fun o ho => by
        obtain rfl := Part.object.inj (List.mem_singleton.mp ho)
        exact isa_firstGroup },
    .kind {
      isa := "PBXProject"
      parts := [.object projectLines]
      isa_ne := by decide
      isa_word := List.all_eq_true.mp (by decide)
      own := fun o ho => by
        obtain rfl := Part.object.inj (List.mem_singleton.mp ho)
        decide +kernel }]
  indent := ['\t']
  foot := ";\n\trootObject = P1;\n\x7d\n".toList
  root := (emptiedRoot? "\x7b\n\tobjects = \x7b\n".toList ";\n\trootObject = P1;\n\x7d\n".toList).getD {}
  head_lines := groupsLayout.head_lines
  head_single := groupsLayout.head_single
  head_unmarked := groupsLayout.head_unmarked
  indent_isIndent := groupsLayout.indent_isIndent
  emptied := by
    have h : (emptiedRoot? "\x7b\n\tobjects = \x7b\n".toList
        ";\n\trootObject = P1;\n\x7d\n".toList).isSome = true := by decide +kernel
    obtain ⟨root, hroot⟩ := Option.isSome_iff_exists.mp h
    rw [hroot]
    exact document_of_emptiedRoot? hroot
  isas_nodup := by decide
  ids_nodup := by decide

/-- An app with that project, beside a Podfile or not. -/
def plainApp (podfile? : Option Path) : App where
  folder := ⟨"", ["ios"]⟩
  project := ⟨"", ["ios", "App.xcodeproj"]⟩
  libraryFolder := .text "Libraries"
  systemLibraries := []
  podfile? := podfile?

/-- A library that needs nothing of the system. -/
def plainLibrary (sources : Sources) : Library where
  folder := ⟨"", ["foo"]⟩
  sources := sources
  libraryFolder := .text "Libraries"
  systemLibraries := []

def fooProject : Path := ⟨"", ["foo", "Foo.xcodeproj"]⟩

/-- The app, with a text for the Podfile, and the library. -/
def plainWorkspace (podfile : String) : Workspace where
  tree := {
    root := .folder [
      ("ios", .folder [
        ("Podfile", .file podfile.toUTF8),
        ("App.xcodeproj", .folder [("project.pbxproj", .file (String.ofList emptyLayout.text).toUTF8)])]),
      ("foo", .folder [
        ("Foo.xcodeproj", .folder [("project.pbxproj", .file (String.ofList emptyLayout.text).toUTF8)])])]
    here := ⟨"/", []⟩ }

theorem readText_plainApp (podfile : String) :
    (plainWorkspace podfile).tree.readText (plainApp none).projectFile = .ok (String.ofList emptyLayout.text) :=
  Tree.readText_of_hasFile (show Tree.HasFile _ _ ["ios", "App.xcodeproj", "project.pbxproj"] _ from ⟨rfl, rfl⟩)

end Ios
end ModuleLink
