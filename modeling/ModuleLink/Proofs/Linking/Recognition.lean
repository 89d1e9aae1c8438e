import ModuleLink.Linking.Sides
import ModuleLink.Proofs.Android.InstalledGate
import ModuleLink.Proofs.Ios.UnlinkedProject

/-!
What is recognised behind a run, on either platform.  Linking and recognising are different code on every route, so they
agree only where the files let them.
-/

namespace ModuleLink
namespace Linking

open Xcode Workspace

variable {w w' : Workspace} {name : String} {params : Answers}

/-- Linking a library with an Xcode project can be told from the project file of the app: it is in Xcode layout, what its
groups list is there, and the texts of the library can be written into it. -/
structure ShowsProject (t : Tree) (app : Ios.App) (library : Ios.Library) (project : Path) : Prop where
  layout : ∃ L : Layout, t.readText app.projectFile = .ok (String.ofList L.text)
  children : ∀ g, ProjectFile.load t app.projectFile = .ok g →
    ∀ o ∈ g.objects, o.isa = "PBXGroup" → ∀ ref ∈ o.refs "children", ref ∈ g.ids
  writes : ∀ built, ProjectFile.load t (Ios.projectFile project) = .ok built →
    Ios.Writes t app library project built

/-- What linking inserts is what the library is recognised by. -/
def Shows (w : Workspace) : (p : Platform) → AppSide p → LibrarySide p → Prop
  | .android, app, _ => ∀ q ∈ [app.strings, app.mainFile], w.tree.Apart q app.buildGradle
  | .ios, app, library =>
    match Ios.route app library with
    | .podLine podfile podspec => ∀ content, w.tree.readText podfile = .ok content →
        (Ios.podInsertionFor w.tree.here app library podfile podspec).isIn content.toList = false
    | .projectEdits project => ShowsProject w.tree app library project
    | .byHand _ => True

/-- A library that was not linked, and is linked with nothing left to do by hand, counts as linked. -/
theorem isInstalled_of_register (p : Platform) {app : AppSide p} {library : LibrarySide p}
    (hshows : Shows w p app library)
    (hnot : ((capability p).isInstalled app name library).run w = (.ok false, w))
    (h : ((capability p).register name library params app).run w = (.ok [], w')) :
    ((capability p).isInstalled app name library).run w' = (.ok true, w') := by
  cases p with
  | android =>
    have hinstalled : Android.isInstalled w'.tree app name = .ok true :=
      Android.isInstalled_of_register_buildLine hshows h
    show (look fun t => Android.isInstalled t app name).run w' = _
    rw [run_look, hinstalled]
  | ios =>
    simp only [Shows] at hshows
    show (Ios.isInstalled app library).run w' = _
    replace h : (Ios.register name library app).run w = (.ok [], w') := h
    replace hnot : (Ios.isInstalled app library).run w = (.ok false, w) := hnot
    cases hroute : Ios.route app library with
    | podLine podfile podspec =>
      rw [hroute] at hshows
      obtain ⟨content, hread, hnone⟩ := Ios.exists_readText_of_isInstalled hroute hnot
      rw [Ios.isInstalled_of_register_podLine hroute hread hnone h, hshows content hread]
      rfl
    | byHand podspec => exact absurd rfl (Ios.left_ne_nil_of_byHand hroute h)
    | projectEdits project =>
      rw [hroute] at hshows
      obtain ⟨⟨L, hread⟩, hchildren, hwrites⟩ := hshows
      exact Ios.isInstalled_of_register_projectEdits hroute hread hchildren hwrites h

/-! ## A library on every route -/

def podfilePath : Path := ⟨"", ["ios", "Podfile"]⟩

def fooPodspec : Path := ⟨"", ["foo", "Foo.podspec"]⟩

theorem route_pod : Ios.route (Ios.plainApp (some podfilePath)) (Ios.plainLibrary (.pod fooPodspec)) =
    .podLine podfilePath fooPodspec := rfl

/-- A target without pods. -/
def emptyTarget : String := "target 'App' do\nend\n"

/-- A target whose one pod was commented out. -/
def commentedTarget : String := "target 'App' do\n#  pod 'Foo', :path => '../foo'\nend\n"

/-- A pod is linked into a target, and a library that takes a key into the files of an Android app; both count as
linked. -/
theorem isInstalled_of_register_plain :
    (∃ w', ((capability .ios).register "foo" (Ios.plainLibrary (.pod fooPodspec)) [] (Ios.plainApp (some podfilePath))).run
        (Ios.plainWorkspace emptyTarget) = (.ok [], w') ∧
      ((capability .ios).isInstalled (Ios.plainApp (some podfilePath)) "foo" (Ios.plainLibrary (.pod fooPodspec))).run w' =
        (.ok true, w')) ∧
    ∃ w', ((capability .android).register "foo" (Android.Selection.sampleDependency false).library [("key", "1 < 2")]
        Android.shortApp).run (Android.shortWorkspace "<resources>\n") = (.ok [], w') ∧
      ((capability .android).isInstalled Android.shortApp "foo" (Android.Selection.sampleDependency false).library).run
        w' = (.ok true, w') := by
  constructor
  · have hread : (Ios.plainWorkspace emptyTarget).tree.readText podfilePath =
        .ok emptyTarget := by decide +kernel
    have hshows : Shows (Ios.plainWorkspace emptyTarget) .ios (Ios.plainApp (some podfilePath))
        (Ios.plainLibrary (.pod fooPodspec)) := by
      intro content hcontent
      obtain rfl := Except.ok.inj (hread.symm.trans hcontent)
      decide +kernel
    have hnot : (Ios.isInstalled (Ios.plainApp (some podfilePath)) (Ios.plainLibrary (.pod fooPodspec))).run
        (Ios.plainWorkspace emptyTarget) = (.ok false, Ios.plainWorkspace emptyTarget) := by
      rw [Ios.run_isInstalled_of_podLine route_pod hread,
        show Ios.hasPod (Ios.podName fooPodspec) emptyTarget.toList = false by decide +kernel]
    have hok : (((capability .ios).register "foo" (Ios.plainLibrary (.pod fooPodspec)) []
        (Ios.plainApp (some podfilePath))).run (Ios.plainWorkspace emptyTarget)).1 = .ok [] := by decide +kernel
    have hrun := Attempt.run_eq_of_fst hok
    exact ⟨_, hrun, isInstalled_of_register .ios hshows hnot hrun⟩
  · have hbase := Android.Selection.isBase_sample
    have hstart := Android.Selection.holds_of_isBase hbase
    have hshows : Shows (Android.shortWorkspace "<resources>\n") .android Android.shortApp
        (Android.Selection.sampleDependency false).library :=
      fun q hq => hbase.apart.apart_build q (List.mem_cons_of_mem _ hq)
    have hnot : (look fun t => Android.isInstalled t Android.shortApp "foo").run (Android.shortWorkspace "<resources>\n") =
        (.ok false, Android.shortWorkspace "<resources>\n") := by
      rw [run_look]
      exact congrArg (·, _) (Android.Selection.isInstalled_eq hbase hstart false)
    obtain ⟨w', hrun, -⟩ := Android.Selection.run_register hbase hstart false
    exact ⟨w', hrun, isInstalled_of_register .android hshows hnot hrun⟩

/-- A line that was commented out is taken for the line that is put in: nothing is left to do by hand, and the pod is no
part of the target. -/
theorem not_isInstalled_of_commentedPod :
    ∃ w', (Ios.isInstalled (Ios.plainApp (some podfilePath)) (Ios.plainLibrary (.pod fooPodspec))).run
        (Ios.plainWorkspace commentedTarget) =
        (.ok false, Ios.plainWorkspace commentedTarget) ∧
      (Ios.register "foo" (Ios.plainLibrary (.pod fooPodspec)) (Ios.plainApp (some podfilePath))).run
        (Ios.plainWorkspace commentedTarget) = (.ok [], w') ∧
      (Ios.isInstalled (Ios.plainApp (some podfilePath)) (Ios.plainLibrary (.pod fooPodspec))).run w' =
        (.ok false, w') := by
  have hread : (Ios.plainWorkspace commentedTarget).tree.readText podfilePath =
      .ok commentedTarget := by decide +kernel
  have hnot := Ios.run_isInstalled_of_podLine route_pod hread
  have hnone : Ios.hasPod (Ios.podName fooPodspec)
      commentedTarget.toList = false := by decide +kernel
  rw [hnone] at hnot
  have hok : ((Ios.register "foo" (Ios.plainLibrary (.pod fooPodspec)) (Ios.plainApp (some podfilePath))).run
      (Ios.plainWorkspace commentedTarget)).1 = .ok [] := by decide +kernel
  have hrun := Attempt.run_eq_of_fst hok
  have hthere : (Ios.podInsertionFor (Ios.plainWorkspace "").tree.here (Ios.plainApp (some podfilePath))
      (Ios.plainLibrary (.pod fooPodspec)) podfilePath fooPodspec).isIn
        commentedTarget.toList = true := by decide +kernel
  have hafter := Ios.isInstalled_of_register_podLine route_pod hread hnone hrun
  refine ⟨_, hnot, hrun, ?_⟩
  rw [hafter]
  exact congrArg (fun b => ((.ok (!b), _) : Except Fault Bool × Workspace)) hthere

/-! ## Unlinking -/

/-- Unlinking a library with an Xcode project can be told from the project file of the app: it is in Xcode layout, its
project is no group, and of all groups of the name only the first one lists the project of the library. -/
structure ClearsProject (t : Tree) (app : Ios.App) (project : Path) : Prop where
  layout : ∃ L : Layout, t.readText app.projectFile = .ok (String.ofList L.text)
  kind : ∀ g own, ProjectFile.load t app.projectFile = .ok g → g.project = .ok own → own.isa ≠ "PBXGroup"
  only : ∀ g group, ProjectFile.load t app.projectFile = .ok g →
    g.findGroup (Ios.bearsName app.libraryFolder) = .ok (some group) →
    g.Marks (Ios.bearsName app.libraryFolder) project.name fun id _ => id = group.id

/-- The library is recognised only by what unlinking takes out. -/
def Clears (w : Workspace) (name : String) : (p : Platform) → AppSide p → LibrarySide p → Prop
  | .android, app, library => ∃ (ι : Type) (_ : DecidableEq ι) (s : Android.Selection ι) (i : ι),
      s.app = app ∧ (s.get i).name = name ∧ (s.get i).library = library ∧ s.HoldsParts w
  | .ios, app, library =>
    match Ios.route app library with
    | .podLine podfile podspec => ∃ x y,
        let line := (Ios.podInsertionFor w.tree.here app library podfile podspec).chars
        w.tree.readText podfile = .ok (String.ofList (x ++ (line ++ y))) ∧ Text.hits line (x ++ (line ++ y)) = 1 ∧
          Ios.hasPod (Ios.podName podspec) (x ++ y) = false
    | .projectEdits project => ClearsProject w.tree app project
    | .byHand _ => True

/-- A library that was recognised, and is unlinked, is recognised no more. -/
theorem not_hasRegistration_of_unregister (p : Platform) {app : AppSide p} {library : LibrarySide p}
    (others : List (Dependency LibrarySide)) (hclears : Clears w name p app library)
    (hthere : ((capability p).hasRegistration app name library).run w = (.ok true, w))
    (h : ((capability p).unregister name library app others).run w = (.ok [], w')) :
    ((capability p).hasRegistration app name library).run w' = (.ok false, w') := by
  cases p with
  | android =>
    obtain ⟨ι, _, s, i, rfl, rfl, rfl, hparts⟩ := hclears
    obtain ⟨w₁, hrun, hgone, -⟩ := Android.Selection.hasRegistration_of_unregister hparts i
    obtain ⟨-, rfl⟩ := Prod.mk.inj (hrun.symm.trans h)
    show (look fun t => Android.hasRegistration t s.app (s.get i).name (s.get i).library).run w₁ = _
    rw [run_look, hgone]
  | ios =>
    simp only [Clears] at hclears
    show (Ios.isInstalled app library).run w' = _
    replace hthere : (Ios.isInstalled app library).run w = (.ok true, w) := hthere
    replace h : (Ios.unregister name library app _).run w = (.ok [], w') := h
    cases hroute : Ios.route app library with
    | podLine podfile podspec =>
      rw [hroute] at hclears
      obtain ⟨x, y, hread, hone, hnone⟩ := hclears
      obtain ⟨w₁, hrun, hgone⟩ := Ios.isInstalled_of_unregister_podLine _ hroute hread hone
      obtain ⟨-, rfl⟩ := Prod.mk.inj (hrun.symm.trans h)
      rw [hgone, hnone]
    | byHand podspec =>
      obtain ⟨hbyHand, -⟩ := Prod.mk.inj (hthere.symm.trans (Ios.run_isInstalled_of_byHand hroute))
      exact absurd (Except.ok.inj hbyHand) (by decide)
    | projectEdits project =>
      rw [hroute] at hclears
      obtain ⟨⟨L, hread⟩, hkind, honly⟩ := hclears
      exact Ios.isInstalled_of_unregister_projectEdits hroute hread hkind honly hthere h

/-- A target with a line for a pod. -/
def linkedTarget : String := "target 'App' do\n  pod 'Foo', :path => '../foo'\nend\n"

/-- A pod is taken out of a target, and a library that takes a key out of the files of an Android app; neither is
recognised any more. -/
theorem not_hasRegistration_of_unregister_plain :
    (∃ w', ((capability .ios).unregister "foo" (Ios.plainLibrary (.pod fooPodspec)) (Ios.plainApp (some podfilePath)) []).run
        (Ios.plainWorkspace linkedTarget) = (.ok [], w') ∧
      ((capability .ios).hasRegistration (Ios.plainApp (some podfilePath)) "foo" (Ios.plainLibrary (.pod fooPodspec))).run w' =
        (.ok false, w')) ∧
    ∃ w w', ((capability .android).hasRegistration Android.shortApp "foo"
        (Android.Selection.sampleDependency false).library).run w = (.ok true, w) ∧
      ((capability .android).unregister "foo" (Android.Selection.sampleDependency false).library Android.shortApp []).run
        w = (.ok [], w') ∧
      ((capability .android).hasRegistration Android.shortApp "foo" (Android.Selection.sampleDependency false).library).run
        w' = (.ok false, w') := by
  constructor
  · have hread : (Ios.plainWorkspace linkedTarget).tree.readText podfilePath = .ok linkedTarget := by decide +kernel
    have hclears : Clears (Ios.plainWorkspace linkedTarget) "foo" .ios (Ios.plainApp (some podfilePath))
        (Ios.plainLibrary (.pod fooPodspec)) :=
      ⟨"target 'App' do\n".toList, "end\n".toList, by decide +kernel, by decide +kernel, by decide +kernel⟩
    have hthere : (Ios.isInstalled (Ios.plainApp (some podfilePath)) (Ios.plainLibrary (.pod fooPodspec))).run
        (Ios.plainWorkspace linkedTarget) = (.ok true, Ios.plainWorkspace linkedTarget) := by
      rw [Ios.run_isInstalled_of_podLine route_pod hread,
        show Ios.hasPod (Ios.podName fooPodspec) linkedTarget.toList = true by decide +kernel]
    have hok : (((capability .ios).unregister "foo" (Ios.plainLibrary (.pod fooPodspec))
        (Ios.plainApp (some podfilePath)) []).run (Ios.plainWorkspace linkedTarget)).1 = .ok [] := by decide +kernel
    have hrun := Attempt.run_eq_of_fst hok
    exact ⟨_, hrun, not_hasRegistration_of_unregister .ios [] hclears hthere hrun⟩
  · have hbase := Android.Selection.isBase_sample
    obtain ⟨w, -, hw⟩ := Android.Selection.run_register hbase (Android.Selection.holds_of_isBase hbase) false
    have hthere : (look fun t => Android.hasRegistration t Android.shortApp "foo"
        (Android.Selection.sampleDependency false).library).run w = (.ok true, w) := by
      rw [run_look]
      exact congrArg (·, w) (Android.Selection.hasRegistration_eq hbase hw (by decide) false)
    have hparts : Android.Selection.sampleSelection.HoldsParts w := ⟨_, _, _, hbase, hw, fun _ => by decide⟩
    obtain ⟨w', hrun, -⟩ := Android.Selection.hasRegistration_of_unregister hparts false
    exact ⟨w, w', hthere, hrun, not_hasRegistration_of_unregister .android []
      ⟨Bool, inferInstance, Android.Selection.sampleSelection, false, rfl, rfl, rfl, hparts⟩ hthere hrun⟩

/-- A dependency that was written by hand is recognised in any configuration, and in any quotes, but unlinking only looks
for the line that linking writes. -/
theorem hasRegistration_of_unregister_written :
    ∃ w', Android.hasRegistration (Android.sparseWorkspace "build.gradle" "dependencies \x7b\n    api project(\":foo\")\n").tree
        Android.shortApp "foo" Android.keyedLibrary = .ok true ∧
      (Android.unregister "foo" Android.keyedLibrary Android.shortApp).run
        (Android.sparseWorkspace "build.gradle" "dependencies \x7b\n    api project(\":foo\")\n") = (.ok [], w') ∧
      Android.hasRegistration w'.tree Android.shortApp "foo" Android.keyedLibrary = .ok true :=
  ⟨_, by decide +kernel, Attempt.run_eq_of_fst (by decide +kernel), by decide +kernel⟩

end Linking
end ModuleLink
