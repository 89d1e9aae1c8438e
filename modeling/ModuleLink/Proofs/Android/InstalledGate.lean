import ModuleLink.Proofs.Android.LinkedSet
import ModuleLink.Proofs.Android.PartialLink
import ModuleLink.Proofs.Outcome

/-!
When a library counts as linked.  Only the build file is asked.  So a library that was linked in part counts as linked
as soon as the build file has its line, whatever the other files hold.
-/

namespace ModuleLink
namespace Android

open Patch Insertion Workspace

variable {name instance_ appName : String} {library : Library} {params : Answers} {app : App} {t : Tree}
  {w w' v : Workspace} {path : Path}

/-! ## Histories -/

/-- The workspaces that linking and unlinking a library lead to, in any order and any number of times. -/
inductive Reaches (name : String) (library : Library) (params : Answers) (app : App) (w : Workspace) : Workspace → Prop
  | start : Reaches name library params app w w
  | link {v : Workspace} : Reaches name library params app w v →
      Reaches name library params app w ((register name library params app).run v).2
  | unlink {v : Workspace} : Reaches name library params app w v →
      Reaches name library params app w ((unregister name library app).run v).2

/-- What linking and unlinking keep is true behind every history. -/
theorem Reaches.invariant {P : Workspace → Prop} (h : Reaches name library params app w v) (hstart : P w)
    (hlink : Attempt.Keeps P (register name library params app))
    (hunlink : Attempt.Keeps P (unregister name library app)) : P v := by
  induction h with
  | start => exact hstart
  | link _ ih => exact hlink _ ih
  | unlink _ ih => exact hunlink _ ih

/-! ## Libraries that are linked -/

/-- Each text of the library that is not empty is in its file. -/
def IsLinked (t : Tree) (name : String) (library : Library) (params : Answers) (app : App) : Prop :=
  ∀ ps, insertions t.here name library params app = .ok ps → ∀ x ∈ ps, x.2.isApplied t x.1 = .ok true

instance : Decidable (IsLinked t name library params app) :=
  match h : insertions t.here name library params app with
  | .ok ps => decidable_of_iff (∀ x ∈ ps, x.2.isApplied t x.1 = .ok true) (by simp [IsLinked, h])
  | .error f => isTrue fun ps hps => by simp [h] at hps

/-- Linking a library again changes nothing, and leaves nothing to be done by hand. -/
theorem run_register_of_isLinked (happ : app.appName = .text appName) (hinst : library.instance_ = .text instance_)
    (h : IsLinked w.tree name library params app) : (register name library params app).run w = (.ok [], w) := by
  obtain ⟨ps, hps⟩ : ∃ ps, insertions w.tree.here name library params app = .ok ps :=
    ⟨_, insertions_of_text happ hinst params⟩
  rw [run_register hps, Attempt.run_bind_ok (run_inserts_of_isApplied (h ps hps))]
  obtain ⟨_, _, -, -, rfl⟩ := insertions_eq_ok hps
  rfl

/-- The line in the build file is what the library is recognised by. -/
theorem isInstalled_of_isApplied (h : (buildInsertion name).isApplied t app.buildGradle = .ok true) :
    isInstalled t app name = .ok true := by
  obtain ⟨content, hread, hin⟩ := isApplied_eq_true (buildInsertion_nonempty name) h
  rw [isInstalled, hread]
  exact congrArg Except.ok (hasDependency_of_isIn hin)

/-- Where linking leaves nothing to do by hand, the library counts as linked. -/
theorem isInstalled_of_register_buildLine (hapart : ∀ q ∈ [app.strings, app.mainFile], w.tree.Apart q app.buildGradle)
    (h : (register name library params app).run w = (.ok [], w')) : isInstalled w'.tree app name = .ok true := by
  obtain ⟨ps, w₁, hlook, -⟩ := Attempt.run_bind_eq_ok h
  obtain ⟨hps, -⟩ := Prod.mk.inj hlook
  rw [run_register hps] at h
  obtain ⟨appName, instance_, -, -, rfl⟩ := insertions_eq_ok hps
  obtain ⟨lefts, w₂, hinserts, hdone⟩ := Attempt.run_bind_eq_ok h
  obtain ⟨hnone, rfl⟩ := Attempt.run_pure_eq_ok hdone
  refine isInstalled_of_isApplied (isApplied_of_run_inserts [(app.settingsGradle, _)] ⟨rfl, rfl⟩ ?_ hinserts hnone)
  simp only [List.forall_mem_cons] at hapart ⊢
  exact ⟨hapart.1, hapart.2.1, hapart.2.1, by simp⟩

theorem isInstalled_congr {u : Tree} (h : u.readText app.buildGradle = t.readText app.buildGradle) :
    isInstalled u app name = isInstalled t app name := by
  rw [isInstalled, isInstalled, h]

/-! ## Libraries without a trace -/

/-- Unlinking a library of which nothing is there changes nothing. -/
theorem run_unregister_of_not_hasRegistration (h : hasRegistration w.tree app name library = .ok false) :
    (unregister name library app).run w = (.ok [], w) := by
  obtain ⟨ps, hps, hidle⟩ := exists_isIdle_of_not_hasRegistration h
  exact run_unregister_of_trail hps (trail_of_isIdle hidle)

/-- The files of a library without a trace can be read, so linking it ends well. -/
theorem exists_run_register (happ : app.appName = .text appName) (hinst : library.instance_ = .text instance_)
    (htrace : hasRegistration w.tree app name library = .ok false) :
    ∃ left w', (register name library params app).run w = (.ok left, w') := by
  obtain ⟨qs, hqs, hidle⟩ := exists_isIdle_of_not_hasRegistration htrace
  obtain ⟨present, -, hqs'⟩ := ok_of_bind hqs
  obtain rfl := Except.ok.inj ((insertions_of_text happ hinst present).symm.trans hqs')
  simp only [List.forall_mem_cons] at hidle
  obtain ⟨hsettings, hbuild, -, -, hmain, -⟩ := hidle
  have hsettings := isTextOrMissing_of_isApplied (includeInsertion_nonempty _ _ _ _ _)
    (hsettings.resolve_left (by rw [includeInsertion_nonempty]; simp))
  have hbuild := isTextOrMissing_of_isApplied (buildInsertion_nonempty _)
    (hbuild.resolve_left (by rw [buildInsertion_nonempty]; simp))
  have hmain := isTextOrMissing_of_isApplied (importInsertion_nonempty _)
    (hmain.resolve_left (by rw [importInsertion_nonempty]; simp))
  obtain ⟨ps, hps⟩ : ∃ ps, insertions w.tree.here name library params app = .ok ps :=
    ⟨_, insertions_of_text happ hinst params⟩
  obtain ⟨lefts, w', hrun⟩ := exists_run_inserts (isBehind_of_mem_insertions hps) (w := w) (by
    obtain ⟨_, _, -, -, rfl⟩ := insertions_eq_ok hps
    simp only [List.forall_mem_cons]
    exact ⟨hsettings, hbuild, isTextOrMissing_of_not_hasRegistration htrace, hmain, hmain, by simp⟩)
  refine ⟨lefts.flatten, w', ?_⟩
  rw [run_register hps, Attempt.run_bind_ok hrun]
  rfl

/-! ## Build files without a place -/

/-- The build file is as it is in the tree. -/
def KeepsBuild (app : App) (t : Tree) (w : Workspace) : Prop :=
  w.tree.locate = t.locate ∧ w.tree.readText app.buildGradle = t.readText app.buildGradle

theorem FourFiles.apart_build (h : FourFiles t app) :
    ∀ q ∈ [app.settingsGradle, app.strings, app.mainFile], t.Apart q app.buildGradle := by
  simp only [FourFiles, List.pairwise_cons, List.forall_mem_cons] at h
  obtain ⟨⟨hsettings, -⟩, ⟨hstrings, hmain, -⟩, -⟩ := h
  simp only [List.forall_mem_cons]
  exact ⟨hsettings, hstrings.symm, hmain.symm, by simp⟩

theorem keepsBuild_register (happ : app.appName = .text appName) (hinst : library.instance_ = .text instance_)
    (hfiles : FourFiles t app) (hfits : ¬(buildInsertion name).Fits app.buildGradle t) :
    Attempt.Keeps (KeepsBuild app t) (register name library params app) := by
  intro v hv
  obtain ⟨ps, hps⟩ : ∃ ps, insertions v.tree.here name library params app = .ok ps :=
    ⟨_, insertions_of_text happ hinst params⟩
  have hother (q : Path) (hq : q ∈ [app.settingsGradle, app.strings, app.mainFile]) (p : Insertion) :
      Attempt.Keeps (KeepsBuild app t) (insert q p) := keeps_insert p (hfiles.apart_build q hq) _
  have hbuild : Attempt.Keeps (KeepsBuild app t) (insert app.buildGradle (buildInsertion name)) :=
    keeps_insert_of_not_fits ⟨rfl, rfl⟩ hfits
  rw [run_register hps]
  refine (Attempt.keeps_mapM ?_).bind (fun _ => Attempt.keeps_pure _) v hv
  obtain ⟨_, _, -, -, rfl⟩ := insertions_eq_ok hps
  simp only [List.forall_mem_cons]
  exact ⟨hother _ (by simp) _, hbuild, hother _ (by simp) _, hother _ (by simp) _, hother _ (by simp) _, by simp⟩

theorem keepsBuild_unregister (hfiles : FourFiles t app)
    (hidle : (buildInsertion name).IsIdle app.buildGradle t) :
    Attempt.Keeps (KeepsBuild app t) (unregister name library app) := by
  intro v hv
  rcases hps : presentInsertions v.tree name library app with f | ps
  · have hlook : (look fun t => presentInsertions t name library app).run v = (.error f, v) := by rw [run_look, hps]
    rw [unregister, Attempt.run_bind_error hlook]
    exact hv
  · obtain ⟨present, -, hlist⟩ := ok_of_bind hps
    obtain ⟨appName, instance_, -, -, rfl⟩ := insertions_eq_ok hlist
    have hother (q : Path) (hq : q ∈ [app.settingsGradle, app.strings, app.mainFile]) (p : Insertion) :
        Attempt.Keeps (KeepsBuild app t) (p.revertIn q) := keeps_revertIn p (hfiles.apart_build q hq) _
    have hbuild : Attempt.Keeps (KeepsBuild app t) ((buildInsertion name).revertIn app.buildGradle) :=
      keeps_revertIn_of_isIdle hidle
    rw [run_unregister hps]
    refine (keeps_revertAll_of _ ?_).bind (fun _ => Attempt.keeps_pure _) v hv
    simp only [List.mem_reverse, List.forall_mem_cons]
    exact ⟨hother _ (by simp) _, hbuild, hother _ (by simp) _, hother _ (by simp) _, hother _ (by simp) _, by simp⟩

/-! ## The gate -/

/-- The params of a library that is linked completely are found again, and all that was inserted with them. -/
theorem presentInsertions_of_isLinked {ps : List (Path × Insertion)} {left : List String} (hparams : WellNamed params)
    (hfiles : FourFiles w.tree app) (htext : w.tree.IsTextOrMissing app.strings)
    (hnone : HoldsNoEntry w.tree app.strings (camelCase name))
    (hps : insertions w.tree.here name library params app = .ok ps) (h : Turns ps w w' left)
    (hlinked : IsLinked w'.tree name library params app) : presentInsertions w'.tree name library app = .ok ps := by
  have happlied := hlinked ps (by rw [h.here, hps])
  obtain ⟨appName, instance_, -, -, rfl⟩ := insertions_eq_ok hps
  suffices hback : moduleParams w'.tree app.strings (camelCase name) = .ok params by
    rw [presentInsertions_eq name library hback, h.here, hps]
  rcases moduleParams_of_turns hparams (newline_notMem_camelCase name) hfiles htext hnone h with
    ⟨hback, -⟩ | ⟨hback, hfits, -⟩
  · exact hback
  · simp only [FourFiles, List.pairwise_cons, List.forall_mem_cons] at hfiles
    obtain ⟨⟨-, hsettings, -, -⟩, ⟨hbuild, -, -⟩, ⟨hmain, -⟩, -⟩ := hfiles
    have hthere := happlied (app.strings, stringsInsertion params (camelCase name)) (by simp)
    cases hempty : (stringsInsertion params (camelCase name)).isEmpty with
    | true => rw [hback, stringsInsertion_isEmpty_iff.mp hempty]
    | false =>
      rcases Turns.isApplied_cases [(app.settingsGradle, _), (app.buildGradle, _)] h
        (by simp only [List.forall_mem_cons]; exact ⟨hsettings, hbuild, by simp⟩)
        (by simp only [List.forall_mem_cons]; exact ⟨hmain.symm, hmain.symm, by simp⟩) hempty with
        ⟨hplace, -⟩ | ⟨-, hfalse⟩
      · exact absurd hplace hfits
      · simp [hthere] at hfalse

/-- Where the build file has no place for the library, the library never counts as linked. -/
theorem not_isInstalled_of_not_fits (happ : app.appName = .text appName) (hinst : library.instance_ = .text instance_)
    (hfiles : FourFiles w.tree app) (htrace : hasRegistration w.tree app name library = .ok false)
    (hfits : ¬(buildInsertion name).Fits app.buildGradle w.tree) (hv : Reaches name library params app w v) :
    isInstalled v.tree app name = .ok false := by
  have hidle : (buildInsertion name).IsIdle app.buildGradle w.tree := by
    obtain ⟨ps, hps, hidle⟩ := exists_isIdle_of_not_hasRegistration htrace
    obtain ⟨present, -, hlist⟩ := ok_of_bind hps
    obtain ⟨_, _, -, -, rfl⟩ := insertions_eq_ok hlist
    exact hidle (app.buildGradle, buildInsertion name) (by simp)
  have hkept : KeepsBuild app w.tree v := hv.invariant ⟨rfl, rfl⟩
    (keepsBuild_register happ hinst hfiles hfits) (keepsBuild_unregister hfiles hidle)
  rw [isInstalled_congr hkept.2, isInstalled_of_not_hasRegistration htrace]

/-- The gate is right behind every history that starts without a trace of the library exactly if the build file has no
place for the library, or linking it once puts all of its texts where they belong. -/
theorem isLinked_of_isInstalled_iff (happ : app.appName = .text appName) (hinst : library.instance_ = .text instance_)
    (hparams : WellNamed params) (hfiles : FourFiles w.tree app)
    (hnone : HoldsNoEntry w.tree app.strings (camelCase name))
    (htrace : hasRegistration w.tree app name library = .ok false) (hfresh : IsFresh w name library params app) :
    ∃ left w', (register name library params app).run w = (.ok left, w') ∧
      ((∀ v, Reaches name library params app w v → isInstalled v.tree app name = .ok true →
          IsLinked v.tree name library params app) ↔
        ¬(buildInsertion name).Fits app.buildGradle w.tree ∨ IsLinked w'.tree name library params app) := by
  obtain ⟨left, w', hrun⟩ : ∃ left w', (register name library params app).run w = (.ok left, w') :=
    exists_run_register happ hinst htrace
  obtain ⟨ps, hps, hturns⟩ := turns_of_run_register hfresh hrun
  obtain rfl := Except.ok.inj ((insertions_of_text happ hinst params).symm.trans hps)
  have hbuild := Turns.isApplied_cases [(app.settingsGradle, _)] hturns
    (by simpa using hfiles.apart_build app.settingsGradle (by simp))
    (by
      simp only [List.forall_mem_cons]
      exact ⟨hfiles.apart_build _ (by simp), hfiles.apart_build _ (by simp), hfiles.apart_build _ (by simp), by simp⟩)
    (buildInsertion_nonempty name)
  refine ⟨left, w', hrun, fun hsound => ?_, ?_⟩
  · by_contra hcontra
    rw [not_or, not_not] at hcontra
    obtain ⟨hfits, hlinked⟩ := hcontra
    have hw' : Reaches name library params app w w' := by
      have hlink : Reaches name library params app w ((register name library params app).run w).2 := .link .start
      rwa [hrun] at hlink
    rcases hbuild with ⟨-, happlied⟩ | ⟨hnot, -⟩
    · exact hlinked (hsound w' hw' (isInstalled_of_isApplied happlied))
    · exact hnot hfits
  · rintro (hfits | hlinked) v hv hinstalled
    · rw [not_isInstalled_of_not_fits happ hinst hfiles htrace hfits hv] at hinstalled
      exact absurd (Except.ok.inj hinstalled) (by decide)
    · -- Linking and unlinking lead to and fro between two workspaces.
      have hback := presentInsertions_of_isLinked hparams hfiles (isTextOrMissing_of_not_hasRegistration htrace) hnone hps
        hturns hlinked
      have hlink : Attempt.Keeps (fun v => v = w ∨ v = w') (register name library params app) := by
        rintro v (rfl | rfl)
        · exact .inr (by rw [hrun])
        · exact .inr (by rw [run_register_of_isLinked happ hinst hlinked])
      have hunlink : Attempt.Keeps (fun v => v = w ∨ v = w') (unregister name library app) := by
        rintro v (rfl | rfl)
        · exact .inl (by rw [run_unregister_of_not_hasRegistration htrace])
        · exact .inl (by rw [run_unregister_of_trail hback hturns.trail])
      rcases hv.invariant (.inl rfl) hlink hunlink with rfl | rfl
      · rw [isInstalled_of_not_hasRegistration htrace] at hinstalled
        exact absurd (Except.ok.inj hinstalled) (by decide)
      · exact hlinked

/-! ## Libraries of a selection -/

namespace Selection

variable {ι : Type} [DecidableEq ι] {s : Selection ι} {base : AppFile → List Char} {w₀ : Workspace} {is : List ι} {i : ι}

theorem isFresh (h : s.IsBase w base) (i : ι) :
    IsFresh w (s.get i).name (s.get i).library (s.get i).params s.app := by
  intro ps hps
  rw [h.here, s.insertions_eq] at hps
  obtain rfl := Except.ok.inj hps
  exact freshInTurn_of_notMem h (by decide) (by simp) (holds_of_isBase h)

omit [DecidableEq ι] in
theorem holdsNoEntry (h : s.IsBase w base) (i : ι) : HoldsNoEntry w.tree s.app.strings (s.stem i) :=
  holdsNoEntry_of_readText _ (h.reads .strings) (by rw [String.toList_ofList]; exact h.entries i)

/-- A library that is linked has all of its texts in the files. -/
theorem isLinked_of_mem (h : s.IsBase w₀ base) (hw : Holds s.app w₀ (s.linkedTexts base is) w) (hi : i ∈ is) :
    IsLinked w.tree (s.get i).name (s.get i).library (s.get i).params s.app := by
  intro ps hps
  rw [hw.here, h.here, s.insertions_eq] at hps
  obtain rfl := Except.ok.inj hps
  intro x hx
  obtain ⟨part, -, rfl⟩ := List.mem_map.mp hx
  show (s.insertion part i).isApplied w.tree (part.file.path s.app) = .ok true
  cases hempty : (s.insertion part i).isEmpty with
  | true => rw [Insertion.isApplied, hempty, if_pos rfl]
  | false => rw [isApplied_eq h hw hempty, decide_eq_true hi]

/-- A library that takes a key is linked whenever it counts as linked, in an app with a place for everything. -/
theorem isLinked_of_isInstalled_sample :
    ∃ left w', (register "foo" (sampleDependency false).library [("key", "1 < 2")] shortApp).run
        (shortWorkspace "<resources>\n") = (.ok left, w') ∧
      ∀ v, Reaches "foo" (sampleDependency false).library [("key", "1 < 2")] shortApp (shortWorkspace "<resources>\n") v →
        isInstalled v.tree shortApp "foo" = .ok true →
          IsLinked v.tree "foo" (sampleDependency false).library [("key", "1 < 2")] shortApp := by
  have hstart := holds_of_isBase isBase_sample
  have htrace : hasRegistration (shortWorkspace "<resources>\n").tree shortApp "foo" (sampleDependency false).library =
      .ok false := hasRegistration_eq isBase_sample hstart List.nodup_nil false
  obtain ⟨left, w', hrun, hiff⟩ := isLinked_of_isInstalled_iff (show shortApp.appName = .text _ from rfl)
    (sampleSelection.plain false).instance_ (sampleSelection.plain false).params isBase_sample.apart
    (holdsNoEntry isBase_sample false) htrace (isFresh isBase_sample false)
  obtain ⟨w₁, hrun₁, hw₁⟩ := run_register isBase_sample hstart false
  obtain ⟨-, rfl⟩ := Prod.mk.inj (hrun₁.symm.trans hrun)
  exact ⟨left, w₁, hrun, hiff.mpr (.inr (isLinked_of_mem isBase_sample hw₁ (by decide)))⟩

end Selection

/-- A library counts as linked that only became a dependency: nothing includes it. -/
theorem isInstalled_of_partLinked :
    hasRegistration (sparseWorkspace "build.gradle" "dependencies\x7b\n").tree shortApp "foo" keyedLibrary = .ok false ∧
      ∃ v, Reaches "foo" keyedLibrary [] shortApp (sparseWorkspace "build.gradle" "dependencies\x7b\n") v ∧
        isInstalled v.tree shortApp "foo" = .ok true ∧ ¬IsLinked v.tree "foo" keyedLibrary [] shortApp :=
  ⟨by decide +kernel, _, .link .start, by decide +kernel, by decide +kernel⟩

end Android
end ModuleLink
