import ModuleLink.Proofs.Ios.FirstPhase
import ModuleLink.Proofs.Ios.LinkedProject

/-!
System libraries in the phase that links the first application.  A library is put there where no file of the project
bears its name; where there is no phase, or the file is one of another application, it is left out.
-/

namespace ModuleLink
namespace Ios

open Plist Xcode Editing Attempt

variable {g g₀ h h' : Graph} {o : Object} {phase : Option Object} {library : String}

/-! ## One library -/

/-- In a project with a root there is a group for system libraries, or there is no main group. -/
theorem exists_run_ensureGroup {project : Object} (hproject : h.project = .ok project) :
    ∃ found h', (ensureGroup frameworksGroup).run h = (.ok found, h') := by
  obtain ⟨main, hmain⟩ : ∃ main, h.mainGroup = .ok main := ⟨_, bind_of_ok hproject _⟩
  have hfind : (findGroup frameworksGroup).run h = (.ok (main.bind fun m => h.groupIn m frameworksGroup.fits), h) := by
    rw [findGroup, run_ask, Graph.findGroup, bind_of_ok hmain]
  have hask : (ask Graph.mainGroup).run h = (.ok main, h) := by rw [run_ask, hmain]
  rw [ensureGroup, run_bind_ok hfind]
  cases main.bind fun m => h.groupIn m frameworksGroup.fits with
  | some group => exact ⟨_, _, rfl⟩
  | none =>
    simp only
    rw [run_bind_ok hask]
    cases main with
    | none => exact ⟨_, _, rfl⟩
    | some main =>
      obtain ⟨h₁, group, hadd⟩ := h.exists_addObject "PBXGroup"
        [("children", .list []), ("name", frameworksGroup.draft), ("sourceTree", .text "<group>")]
        (some frameworksGroup.shown) ("group:" ++ frameworksGroup.shown) (by simp)
        (by simp only [List.forall_mem_cons]; exact ⟨⟨_, rfl⟩, ⟨_, rfl⟩, ⟨_, rfl⟩, by simp⟩)
      have hmade : (add "PBXGroup"
          [("children", .list []), ("name", frameworksGroup.draft), ("sourceTree", .text "<group>")]
          (some frameworksGroup.shown) ("group:" ++ frameworksGroup.shown)).run h = (.ok group, h₁) := by
        rw [run_add, hadd]
      simp only
      rw [run_bind_ok hmade]
      exact ⟨_, _, rfl⟩

theorem run_hasFileNamed (hindexed : h.IsIndexed) (name : String) :
    ∃ there, (hasFileNamed name).run h = (.ok there, h) ∧ (there = true ↔ HasFile h name) := by
  refine ⟨_, by rw [hasFileNamed, run_ask, bind_of_ok (hindexed.objectsOf _)], ?_⟩
  simp only [List.any_eq_true, List.mem_filter, beq_iff_eq]
  constructor
  · rintro ⟨o, ⟨ho, hisa⟩, hname⟩
    exact ⟨o, ho, hisa, hname⟩
  · rintro ⟨o, ho, hisa, hname⟩
    exact ⟨o, ⟨ho, hisa⟩, hname⟩

/-- The file for a system library bears its name. -/
theorem fileName_systemLibrary {library : String} {seed : String} {comment : Option String}
    (hadd : h.addObject "PBXFileReference" ((systemLibraryFields library).map fun f => (f.1, .text f.2)) comment seed =
      .ok (h', o)) : fileName o = library := by
  obtain ⟨path, hfields, hlast⟩ : ∃ path, systemLibraryFields library = [("lastKnownFileType",
      if library.endsWith ".framework" then "wrapper.framework" else "sourcecode.text-based-dylib-definition"),
      ("name", library), ("path", path), ("sourceTree", "SDKROOT")] ∧
      (library = "" → lastComponent path = "") := by
    rw [systemLibraryFields]
    split
    · exact ⟨_, rfl, by rintro rfl; decide⟩
    · exact ⟨_, rfl, by rintro rfl; decide⟩
  rw [hfields] at hadd
  obtain ⟨hthere, -⟩ := field?_added hadd (by simp)
  simp only [List.map_cons, List.map_nil, List.forall_mem_cons] at hthere
  obtain ⟨-, ⟨name, hname, hnameField⟩, ⟨path', hpath, hpathField⟩, -⟩ := hthere
  rw [fileName, text?_of_draft hname hnameField, text?_of_draft hpath hpathField]
  simp only [Option.getD_some]
  split
  next hempty => rw [hlast (by simpa using hempty), show library = "" by simpa using hempty]
  · rfl

/-- The end of one turn: the file is listed in the phase, if there is one. -/
def listFile (phase : Option Object) (library file : String) : Editing (ForInStep PUnit) :=
  match phase with
  | some phase => do
    addBuildFile phase.id file library (systemSeed library ++ ":build")
    pure (.yield PUnit.unit)
  | none => pure (.yield PUnit.unit)

/-- One turn of the loop over system libraries. -/
def systemTurn (phase : Option Object) (library : String) : Editing (ForInStep PUnit) := do
  if !(← hasFileNamed library) then
    let group ← ensureGroup frameworksGroup
    let file ← add "PBXFileReference" ((systemLibraryFields library).map fun f => (f.1, .text f.2)) (some library)
      (systemSeed library)
    match group with
    | some group => do
      let _ ← append group.id "children" file.id (some library)
      listFile phase library file.id
    | none => listFile phase library file.id
  else pure (.yield PUnit.unit)

theorem run_listFile (hindexed : h.IsIndexed) {phase' : Option Object} (hphase : firstPhase h = .ok phase')
    (hid : phase'.map (·.id) = phase.map (·.id)) {id : String} (hfile : h.get? id = some o) (hplain : IsPlain id)
    (hname : IsFileNamed library o) :
    ∃ h', (listFile phase library id).run h = (.ok (.yield PUnit.unit), h') ∧
      Gains [library] h h' ∧ h'.IsIndexed ∧ (phase.isSome = true → ListsFile h' library) := by
  cases phase with
  | none => exact ⟨h, rfl, gains_refl [library] h, hindexed, by simp⟩
  | some phase =>
    obtain ⟨p, rfl, hpid⟩ := Option.map_eq_some_iff.mp hid
    have hget := (get?_firstPhase hphase).1
    rw [show p.id = phase.id from hpid] at hget
    obtain ⟨-, rfl⟩ := Graph.get?_mem hfile
    obtain ⟨h', hrun, hgains, hindexed', p', ref, buildFile, hget', href, hbuild, hbuilds⟩ :=
      run_addBuildFile hindexed hget hfile hplain hname (systemSeed library ++ ":build")
    refine ⟨h', by rw [listFile, run_bind_ok hrun]; rfl, hgains, hindexed', fun _ => ?_⟩
    obtain ⟨after, hafter, hsame⟩ := firstPhase_of_widens hgains.widens hphase
    obtain ⟨q, rfl, hqid⟩ := Option.map_eq_some_iff.mp hsame
    have hq := (get?_firstPhase hafter).1
    rw [show q.id = phase.id from hqid.trans hpid, hget'] at hq
    obtain rfl := Option.some.inj hq
    exact ⟨p', hafter, ref, href, buildFile, hbuild, hbuilds⟩

/-- A library that the project has no file for gets one, and the phase of the first application lists it. -/
theorem run_systemTurn (hindexed : h.IsIndexed) {phase' : Option Object} (hphase : firstPhase h = .ok phase')
    (hid : phase'.map (·.id) = phase.map (·.id)) (hnot : ¬HasFile h library) :
    ∃ h', (systemTurn phase library).run h = (.ok (.yield PUnit.unit), h') ∧
      Gains [library] h h' ∧ h'.IsIndexed ∧ HasFile h' library ∧ (phase.isSome = true → ListsFile h' library) := by
  obtain ⟨targets, htargets, -⟩ := ok_of_bind hphase
  obtain ⟨project, hproject⟩ : ∃ project, h.project = .ok project := by
    obtain ⟨_, hall, -⟩ := ok_of_bind htargets
    obtain ⟨project, hproject, -⟩ := ok_of_bind hall
    exact ⟨project, hproject⟩
  obtain ⟨group, h₁, hgroup⟩ := exists_run_ensureGroup hproject
  obtain ⟨hgains₁, hindexed₁⟩ := gains_ensureGroup hindexed [library] hgroup
  have hkeys : ((systemLibraryFields library).map fun f => (f.1, Draft.text f.2)).map (·.1) =
      ["lastKnownFileType", "name", "path", "sourceTree"] := by
    rw [systemLibraryFields]
    split <;> rfl
  obtain ⟨h₂, file, hadd⟩ := h₁.exists_addObject "PBXFileReference"
    ((systemLibraryFields library).map fun f => (f.1, Draft.text f.2)) (some library) (systemSeed library)
    (by rw [hkeys]; decide) (by
      simp only [List.forall_mem_map]
      exact fun f _ => ⟨_, rfl⟩)
  obtain ⟨hfileId, hisa, -⟩ := Graph.eq_of_addObject hadd (by rw [hkeys]; decide) (by decide)
  have hname : IsFileNamed library file := ⟨hisa, fileName_systemLibrary hadd⟩
  have hgains₂ := hgains₁.trans (gains_addObject hadd (.inr ⟨hisa, List.mem_singleton.mpr hname.name⟩))
  have hindexed₂ := hindexed₁.addObject hadd (by rw [hkeys]; decide) (by decide)
  have hfile : h₂.get? file.id = some file := by
    rw [Change.get?_addObject hadd, Graph.get?_eq_none_iff.mpr (hfileId ▸ h₁.newId_notMem _), if_pos rfl]
    rfl
  have hmade : (add "PBXFileReference" ((systemLibraryFields library).map fun f => (f.1, Draft.text f.2)) (some library)
      (systemSeed library)).run h₁ = (.ok file, h₂) := by rw [run_add, hadd]
  obtain ⟨there, hthere, hfileIff⟩ := run_hasFileNamed hindexed library
  obtain rfl : there = false := Bool.eq_false_iff.mpr fun hhas => hnot (hfileIff.mp hhas)
  rw [systemTurn, run_bind_ok hthere]
  simp only [Bool.not_false, if_true]
  rw [run_bind_ok hgroup, run_bind_ok hmade]
  -- Whether the file was put into a group or not, what is left is to list it.
  have hlist {h₃ : Graph} (hgains₃ : Gains [library] h₂ h₃) (hindexed₃ : h₃.IsIndexed) :
      ∃ h', (listFile phase library file.id).run h₃ = (.ok (.yield PUnit.unit), h') ∧
        Gains [library] h h' ∧ h'.IsIndexed ∧ HasFile h' library ∧ (phase.isSome = true → ListsFile h' library) := by
    obtain ⟨file', hfile', hwide⟩ := hgains₃.widens.kept hfile
    obtain ⟨after, hafter, hsame⟩ := firstPhase_of_widens (hgains₂.widens.trans hgains₃.widens) hphase
    obtain ⟨h', hrun, hgains', hindexed', hlists⟩ := run_listFile hindexed₃ hafter (hsame.trans hid) hfile'
      (hfileId ▸ h₁.newId_isPlain _) (hname.widens hwide)
    refine ⟨h', hrun, (hgains₂.trans hgains₃).trans hgains', hindexed', ?_, hlists⟩
    exact HasFile.widens ⟨file', (Graph.get?_mem hfile').1, hname.widens hwide⟩ hindexed₃.nodup hgains'.widens
  cases group with
  | none => exact hlist (gains_refl [library] h₂) hindexed₂
  | some group =>
    simp only
    rw [run_bind_ok (run_append group.id "children" file.id (some library) h₂)]
    exact hlist (gains_appendChild [library] group.id file.id (some library)) (hindexed₂.appendRef (by decide) _ _ _)

/-! ## All libraries -/

/-- A project in which the libraries of `done` have files, which the phase of the first application lists where they
are new. -/
structure LinksSystem (g : Graph) (phase : Option Object) (done : List String) (h : Graph) : Prop where
  widens : g.Widens h
  indexed : h.IsIndexed
  hasFile : ∀ name, HasFile h name ↔ HasFile g name ∨ name ∈ done
  listsFile : ∀ name, ListsFile h name ↔ ListsFile g name ∨ (name ∈ done ∧ ¬HasFile g name ∧ phase.isSome = true)

/-- A library with a file is left as it is. -/
theorem LinksSystem.skip {done : List String} (hlinks : LinksSystem g phase done h) (hfile : HasFile h library) :
    LinksSystem g phase (done ++ [library]) h where
  widens := hlinks.widens
  indexed := hlinks.indexed
  hasFile name := by
    rw [List.mem_append, List.mem_singleton, ← or_assoc, ← hlinks.hasFile, iff_self_or]
    rintro rfl
    exact hfile
  listsFile name := by
    have hdone : ¬HasFile g library → library ∈ done := ((hlinks.hasFile library).mp hfile).resolve_left
    rw [hlinks.listsFile]
    refine or_congr_right ⟨fun ⟨hin, hrest⟩ => ⟨List.mem_append_left _ hin, hrest⟩, fun ⟨hin, hnot, hphase⟩ => ?_⟩
    rcases List.mem_append.mp hin with hin | hin
    · exact ⟨hin, hnot, hphase⟩
    · obtain rfl := List.mem_singleton.mp hin
      exact ⟨hdone hnot, hnot, hphase⟩

/-- A library without one gets it. -/
theorem LinksSystem.gains {done : List String} (hlinks : LinksSystem g phase done h) (hnot : ¬HasFile h library)
    {phase' : Option Object} (hphase : firstPhase h = .ok phase') (hsome : phase'.isSome = phase.isSome)
    (hgains : Gains [library] h h') (hindexed : h'.IsIndexed) (hfile : HasFile h' library)
    (hlists : phase.isSome = true → ListsFile h' library) : LinksSystem g phase (done ++ [library]) h' where
  widens := hlinks.widens.trans hgains.widens
  indexed := hindexed
  hasFile name := by
    rw [List.mem_append, ← or_assoc, ← hlinks.hasFile]
    refine ⟨hgains.hasFile hindexed.nodup, ?_⟩
    rintro (hold | hin)
    · exact hold.widens hlinks.indexed.nodup hgains.widens
    · obtain rfl := List.mem_singleton.mp hin
      exact hfile
  listsFile name := by
    have hnew : ¬HasFile g library := fun hold => hnot ((hlinks.hasFile library).mpr (.inl hold))
    constructor
    · intro hname
      rcases hgains.listsFile hphase hname with hold | ⟨hin, hthere⟩
      · refine ((hlinks.listsFile name).mp hold).imp_right fun ⟨hin, hrest⟩ => ⟨List.mem_append_left _ hin, hrest⟩
      · obtain rfl := List.mem_singleton.mp hin
        exact .inr ⟨by simp, hnew, hsome ▸ hthere⟩
    · rintro (hold | ⟨hin, hnone, hthere⟩)
      · exact ((hlinks.listsFile name).mpr (.inl hold)).widens hgains.widens
      · rcases List.mem_append.mp hin with hin | hin
        · exact ((hlinks.listsFile name).mpr (.inr ⟨hin, hnone, hthere⟩)).widens hgains.widens
        · obtain rfl := List.mem_singleton.mp hin
          exact hlists hthere

theorem run_addSystemLibraries (hindexed : g.IsIndexed) {target : Object} {rest : List Object}
    (htargets : g.applicationTargets = .ok (target :: rest)) (libraries : List String) :
    ∃ h, (addSystemLibraries libraries).run g = (.ok (), h) ∧ LinksSystem g (frameworksPhase g target) libraries h := by
  have hask : (ask Graph.applicationTargets).run g = (.ok (target :: rest), g) := by rw [run_ask, htargets]
  have hphase : firstPhase g = .ok (frameworksPhase g target) := bind_of_ok htargets _
  have hstart : LinksSystem g (frameworksPhase g target) [] g := ⟨g.widens_refl, hindexed, by simp, by simp⟩
  have hstep : ∀ done, ∀ library ∈ libraries, ∀ h, LinksSystem g (frameworksPhase g target) done h →
      ∃ h', (systemTurn (frameworksPhase g target) library).run h = (.ok (.yield PUnit.unit), h') ∧
        LinksSystem g (frameworksPhase g target) (done ++ [library]) h' := by
    intro done library _ h hlinks
    by_cases hfile : HasFile h library
    · refine ⟨h, ?_, hlinks.skip hfile⟩
      obtain ⟨there, hthere, hfileIff⟩ := run_hasFileNamed hlinks.indexed library
      obtain rfl : there = true := hfileIff.mpr hfile
      rw [systemTurn, run_bind_ok hthere]
      rfl
    · obtain ⟨phase', hphase', hsame⟩ := firstPhase_of_widens hlinks.widens hphase
      obtain ⟨h', hrun, hgains, hindexed', hfile', hlists⟩ := run_systemTurn hlinks.indexed hphase' hsame hfile
      refine ⟨h', hrun, hlinks.gains hfile hphase' ?_ hgains hindexed' hfile' hlists⟩
      rw [← Option.isSome_map (f := (·.id)), hsame, Option.isSome_map]
  obtain ⟨h, hrun, hlinks⟩ := run_forIn (g := fun library _ => systemTurn (frameworksPhase g target) library) hstep hstart
  refine ⟨h, ?_, hlinks⟩
  rw [addSystemLibraries, run_bind_ok hask]
  simp only
  rw [run_bind_ok (run_get g)]
  show ((forIn libraries PUnit.unit fun library _ => systemTurn (frameworksPhase g target) library) >>= fun _ => pure ()).run
    g = _
  rw [run_bind_ok hrun]
  rfl

/-! ## What comes before and after -/

/-- What linking does before it comes to system libraries. -/
def linkProducts (t : Tree) (name : String) (app : App) (project : Path) (built : Graph) :
    Editing (Option (List String)) := do
  match ← ensureGroup (groupName app.libraryFolder) with
  | none => return none
  | some group =>
    listProject group name project.name (Path.relative t.here project app.sourceDir).toString
    let products ← Attempt.ofExcept (built.products staticLibraryType)
    return some (← addStaticLibraries name products)

section Before

/-- The project is still indexed, and has the targets and phases that it had. -/
def Grows (g₀ g : Graph) : Prop := g₀.Widens g ∧ g.IsIndexed

theorem keeps_grows_add {isa seed : String} {fields : List (String × Draft)} {comment : Option String}
    (hkind : isa ∈ gainedKinds) (hisa : "isa" ∉ fields.map (·.1)) :
    Keeps (Grows g₀) (add isa fields comment seed) := by
  intro g hg
  rw [run_add]
  cases hadd : g.addObject isa fields comment seed with
  | error f => exact hg
  | ok made =>
    have hhead : isa.toList.head? ≠ some '"' := by
      simp only [gainedKinds, List.mem_cons, List.not_mem_nil, or_false] at hkind
      rcases hkind with rfl | rfl | rfl
      all_goals decide
    obtain ⟨-, hmade, -⟩ := Graph.eq_of_addObject hadd hisa hhead
    exact ⟨hg.1.trans (Graph.widens_addObject hadd (hmade ▸ hkind)), hg.2.addObject hadd hisa hhead⟩

theorem keeps_grows_append {key : String} (hkey : key ∈ listKeys) (owner ref : String) (comment : Option String) :
    Keeps (Grows g₀) (append owner key ref comment) :=
  fun _ hg => ⟨hg.1.trans (Graph.widens_appendRef hkey _ _ _),
    hg.2.appendRef (by rintro rfl; exact absurd hkey (by decide)) _ _ _⟩

theorem keeps_grows_listProject (group : Object) (name projectName path : String) :
    Keeps (Grows g₀) (listProject group name projectName path) :=
  (keeps_grows_add (by decide) (by simp)).bind fun _ =>
    (keeps_grows_append (by decide) _ _ _).bind fun _ => keeps_pure _

theorem keeps_grows_addProduct (name product : String) (target : Object) (phase : Option Object) :
    Keeps (Grows g₀) (addProduct name target phase product) := by
  cases phase with
  | none => exact keeps_pure _
  | some phase =>
    have hlist (file : Object) : Keeps (Grows g₀) (do
        if !(← get).contains (Digest.stableId (buildSeed name product target.id)) then
          addBuildFile phase.id file.id product (buildSeed name product target.id)
        return [] : Editing (List String)) := by
      refine keeps_get.bind fun g => ?_
      split
      · exact ((keeps_grows_add (by decide) (by simp)).bind fun _ =>
          (keeps_grows_append (by decide) _ _ _).bind fun _ => keeps_pure _).bind fun _ => keeps_pure _
      · exact keeps_pure _
    refine (keeps_ask _).bind fun found => ?_
    cases found with
    | some file => exact (keeps_pure _).bind hlist
    | none => exact (keeps_grows_add (by decide) (by simp)).bind hlist

theorem keeps_grows_addStaticLibraries (name : String) (products : List String) :
    Keeps (Grows g₀) (addStaticLibraries name products) := by
  refine (keeps_ask _).bind fun targets => (keeps_mapM fun target _ => ?_).bind fun _ => keeps_pure _
  exact keeps_get.bind fun g => (keeps_mapM fun product _ => keeps_grows_addProduct name product target _).bind fun _ =>
    keeps_pure _

end Before

variable {t : Tree} {name : String} {app : App} {dependency : Library} {project : Path} {built : Graph}
  {left : List String}

theorem grows_of_linkProducts {left : Option (List String)} (hindexed : g.IsIndexed)
    (hrun : (linkProducts t name app project built).run g = (.ok left, h)) : Grows g h := by
  obtain ⟨group, g₁, hgroup, hrun⟩ := run_bind_eq_ok hrun
  obtain ⟨hgains, hindexed₁⟩ := gains_ensureGroup hindexed [] hgroup
  refine run_of_keeps ?_ hrun ⟨hgains.widens, hindexed₁⟩
  cases group with
  | none => exact keeps_pure _
  | some group =>
    exact (keeps_grows_listProject group _ _ _).bind fun _ => (keeps_ofExcept _).bind fun products =>
      (keeps_grows_addStaticLibraries name products).bind fun _ => keeps_pure _

/-- Search paths put nothing into a phase. -/
theorem gains_changeHeaderSettings (headers : List Path) (path : Except Fault String)
    (hrun : (changeHeaderSettings headers path fun g configuration setting path =>
      g.addSetting configuration setting path Graph.inheritedValue).run h = (.ok (), h')) : Gains [] h h' := by
  refine run_of_keeps (P := Gains [] h) ?_ hrun (gains_refl [] h)
  rw [changeHeaderSettings]
  split
  · refine (keeps_ofExcept _).bind fun path => (keeps_ask _).bind fun configurations => ?_
    refine (keeps_forIn (fun configuration _ _ => Keeps.bind ?_ fun _ => keeps_pure _) _).bind fun _ => keeps_pure _
    exact fun g hg => hg.trans (gains_changeSettings [] _ _)
  · exact keeps_pure _

theorem ListsFile.isSome (hlists : ListsFile g library) (hphase : firstPhase g = .ok phase) : phase.isSome = true := by
  obtain ⟨p, hp, -⟩ := hlists
  rw [← Except.ok.inj (hp.symm.trans hphase)]
  rfl

/-- Linking with nothing left to do by hand comes to the system libraries with a project that has grown, and lists those
that have no file there. -/
theorem exists_of_linkProject (hindexed : g₀.IsIndexed) {target : Object} {rest : List Object}
    (htargets : g₀.applicationTargets = .ok (target :: rest))
    (hrun : (linkProject t name app dependency project built).run g₀ = (.ok [], g)) :
    ∃ g₁ phase, (linkProducts t name app project built).run g₀ = (.ok (some []), g₁) ∧ Grows g₀ g₁ ∧
      firstPhase g₁ = .ok phase ∧ phase.isSome = (frameworksPhase g₀ target).isSome ∧ ∀ library, ListsFile g library ↔
        ListsFile g₁ library ∨ (library ∈ dependency.systemLibraries ∧ ¬HasFile g₁ library ∧ phase.isSome = true) := by
  obtain ⟨group, g₂, hgroup, hrun⟩ := run_bind_eq_ok hrun
  cases group with
  | none => exact absurd (run_pure_eq_ok hrun).1 (by simp)
  | some group =>
    obtain ⟨_, g₃, hlist, hrun⟩ := run_bind_eq_ok hrun
    obtain ⟨products, _, hproducts, hrun⟩ := run_bind_eq_ok hrun
    obtain ⟨hproducts', rfl⟩ := Prod.mk.inj hproducts
    obtain ⟨left, g₁, hstatic, hrun⟩ := run_bind_eq_ok hrun
    obtain ⟨_, h, hsystem, hrun⟩ := run_bind_eq_ok hrun
    obtain ⟨_, _, hheaders, hrun⟩ := run_bind_eq_ok hrun
    obtain ⟨rfl, rfl⟩ := run_pure_eq_ok hrun
    have hstart : (linkProducts t name app project built).run g₀ = (.ok (some []), g₁) := by
      rw [linkProducts, run_bind_ok hgroup]
      simp only
      rw [run_bind_ok hlist, run_bind_ok hproducts, run_bind_ok hstatic]
      rfl
    have hgrows := grows_of_linkProducts hindexed hstart
    obtain ⟨targets, htargets', hall⟩ := hgrows.1.applicationTargets htargets
    cases hall with
    | cons htarget hrest =>
      obtain ⟨h', hsystem', hlinks⟩ := run_addSystemLibraries hgrows.2 htargets' dependency.systemLibraries
      obtain rfl := (Prod.mk.inj (hsystem'.symm.trans hsystem)).2
      have hphase : firstPhase g₁ = .ok (frameworksPhase g₁ _) := bind_of_ok htargets' _
      obtain ⟨phase', hphase', -⟩ := firstPhase_of_widens hlinks.widens hphase
      have hgains := gains_changeHeaderSettings _ _ hheaders
      refine ⟨g₁, _, hstart, hgrows, hphase, ?_, fun library => ?_⟩
      · have hframeworks : "PBXFrameworksBuildPhase" ∉ gainedKinds := by decide
        have hsame := congrArg Option.isSome (hgrows.1.buildPhase htarget hframeworks)
        rwa [Option.isSome_map, Option.isSome_map] at hsame
      · rw [← hlinks.listsFile]
        exact ⟨fun hlists => (hgains.listsFile hphase' hlists).resolve_right (by simp),
          fun hlists => hlists.widens hgains.widens⟩

/-- A system library is in the phase of the first application after linking, if it was there before or the project had
no file of its name, and if there is a phase. -/
theorem linkProject_listsFile_iff (hindexed : g₀.IsIndexed) {target : Object} {rest : List Object}
    (htargets : g₀.applicationTargets = .ok (target :: rest))
    (hrun : (linkProject t name app dependency project built).run g₀ = (.ok [], g)) :
    ∃ g₁, (linkProducts t name app project built).run g₀ = (.ok (some []), g₁) ∧
      ∀ library ∈ dependency.systemLibraries, ListsFile g library ↔
        (frameworksPhase g₀ target).isSome = true ∧ (ListsFile g₁ library ∨ ¬HasFile g₁ library) := by
  obtain ⟨g₁, phase, hstart, -, hphase, hsome, hlists⟩ := exists_of_linkProject hindexed htargets hrun
  refine ⟨g₁, hstart, fun library hlibrary => ?_⟩
  rw [hlists, ← hsome]
  constructor
  · rintro (hold | ⟨-, hnot, hthere⟩)
    · exact ⟨hold.isSome hphase, .inl hold⟩
    · exact ⟨hthere, .inr hnot⟩
  · rintro ⟨hthere, hold | hnot⟩
    · exact .inl hold
    · exact .inr ⟨hlibrary, hnot, hthere⟩

/-! ## Libraries without products -/

theorem run_addStaticLibraries_nil {targets : List Object} (htargets : g.applicationTargets = .ok targets) (name : String) :
    (addStaticLibraries name []).run g = (.ok [], g) := by
  have hask : (ask Graph.applicationTargets).run g = (.ok targets, g) := by rw [run_ask, htargets]
  obtain ⟨_, hrun, rfl⟩ : ∃ h, (targets.mapM fun target => (do
      let g ← get
      let tv := g.isTv target
      let phase := frameworksPhase g target
      let left ← (([] : List String).filter fun p => isTvProduct p == tv).mapM (addProduct name target phase)
      return left.flatten : Editing (List String))).run g = (.ok (targets.map fun _ => []), h) ∧ h = g :=
    run_mapM (I := fun _ h => h = g) (fun _ _ _ h hh => ⟨h, rfl, hh⟩) rfl
  rw [addStaticLibraries, run_bind_ok hask, run_bind_ok hrun, run_pure, List.flatten_eq_nil_iff.mpr (by simp)]

/-- The project of a library is put into a group. -/
theorem exists_run_listProject {projectName : String} (hindexed : g.IsIndexed) (hne : projectName ≠ "") (group : Object)
    (name path : String) : ∃ h, (listProject group name projectName path).run g = (.ok (), h) ∧
      Gains [projectName] g h ∧ h.IsIndexed := by
  obtain ⟨h, file, hadd⟩ := g.exists_addObject "PBXFileReference"
    [("lastKnownFileType", .text "wrapper.pb-project"), ("name", .text projectName), ("path", .text path),
      ("sourceTree", .text "<group>")]
    (some projectName) (projectSeed name) (by simp)
    (by simp only [List.forall_mem_cons]; exact ⟨⟨_, rfl⟩, ⟨_, rfl⟩, ⟨_, rfl⟩, ⟨_, rfl⟩, by simp⟩)
  obtain ⟨-, hisa, -⟩ := Graph.eq_of_addObject hadd (by simp) (by decide)
  obtain ⟨hthere, -⟩ := field?_added hadd (by simp)
  simp only [List.forall_mem_cons] at hthere
  obtain ⟨-, ⟨shown, hshown, hfield⟩, -⟩ := hthere
  have hname : fileName file = projectName := by
    rw [fileName, text?_of_draft hshown hfield]
    simp [hne]
  have hmade : (add "PBXFileReference"
      [("lastKnownFileType", .text "wrapper.pb-project"), ("name", .text projectName), ("path", .text path),
        ("sourceTree", .text "<group>")]
      (some projectName) (projectSeed name)).run g = (.ok file, h) := by rw [run_add, hadd]
  refine ⟨(h.appendRef group.id "children" file.id (some projectName)).1, ?_,
    (gains_addObject hadd (.inr ⟨hisa, List.mem_singleton.mpr hname⟩)).trans (gains_appendChild _ _ _ _),
    (hindexed.addObject hadd (by simp) (by decide)).appendRef (by decide) _ _ _⟩
  rw [listProject, run_bind_ok hmade]
  rfl

/-- A library without products and headers is linked with nothing left to do by hand. -/
theorem exists_run_linkProject (hindexed : g.IsIndexed) {target : Object} {rest : List Object}
    (htargets : g.applicationTargets = .ok (target :: rest)) {group : Object}
    (hgroup : (ensureGroup (groupName app.libraryFolder)).run g = (.ok (some group), g)) (hne : project.name ≠ "")
    (hproducts : built.products staticLibraryType = .ok []) (hheaders : findHeaders t dependency.folder = [])
    (name : String) :
    ∃ g₁ h, (linkProducts t name app project built).run g = (.ok (some []), g₁) ∧ Gains [project.name] g g₁ ∧
      (linkProject t name app dependency project built).run g = (.ok [], h) := by
  obtain ⟨g₁, hlist, hgains, hindexed₁⟩ := exists_run_listProject hindexed hne group name
    (Path.relative t.here project app.sourceDir).toString
  obtain ⟨targets, htargets', hall⟩ := hgains.widens.applicationTargets htargets
  have hask : (Attempt.ofExcept (built.products staticLibraryType)).run g₁ = (.ok [], g₁) := by
    rw [hproducts]
    rfl
  have hstatic := run_addStaticLibraries_nil htargets' name
  cases hall with
  | cons htarget hrest =>
    obtain ⟨h, hsystem, -⟩ := run_addSystemLibraries hindexed₁ htargets' dependency.systemLibraries
    refine ⟨g₁, h, ?_, hgains, ?_⟩
    · rw [linkProducts, run_bind_ok hgroup]
      simp only
      rw [run_bind_ok hlist, run_bind_ok hask, run_bind_ok hstatic]
      rfl
    · rw [linkProject, run_bind_ok hgroup]
      simp only
      rw [run_bind_ok hlist, run_bind_ok hask, run_bind_ok hstatic, run_bind_ok hsystem, hheaders]
      rfl

/-! ### Projects of a few objects -/

def librariesGroup : Object := bareObject "G" [("isa", .text "PBXGroup"), ("name", .text "Libraries")]

/-- A project of one app, with a group for libraries. -/
def appProject (target : Object) (others : List Object) : Graph := graphOf ([
  bareObject "P" [("isa", .text "PBXProject"), ("mainGroup", .text "M"), ("targets", .list [.text target.id])],
  bareObject "M" [("isa", .text "PBXGroup"), ("children", .list [.text "G"])],
  librariesGroup, target] ++ others)

/-- An app with a phase that links nothing yet. -/
def zlibProject (others : List Object) : Graph := appProject phoneApp (phaseObject "F1" :: others)

/-- A library that needs one of the system. -/
def zlibLibrary : Library := { plainLibrary (.project fooProject) with systemLibraries := ["libz.tbd"] }

/-- Linking that library where there are no headers and products. -/
def linkZlib : Editing (List String) :=
  linkProject ⟨.folder [], ⟨"/", []⟩⟩ "foo" (plainApp none) zlibLibrary fooProject (graphOf [])

theorem exists_run_linkZlib (hindexed : g.IsIndexed) {target : Object} {rest : List Object}
    (htargets : g.applicationTargets = .ok (target :: rest))
    (hgroup : (ensureGroup (groupName (plainApp none).libraryFolder)).run g = (.ok (some librariesGroup), g)) :
    ∃ g₁ h, (linkProducts ⟨.folder [], ⟨"/", []⟩⟩ "foo" (plainApp none) fooProject (graphOf [])).run g = (.ok (some []), g₁) ∧
      Gains ["Foo.xcodeproj"] g g₁ ∧ linkZlib.run g = (.ok [], h) :=
  exists_run_linkProject hindexed htargets hgroup (by decide) (by rfl) (by decide +kernel) "foo"

theorem hasFile_iff {name : String} :
    HasFile g name ↔ (g.objects.any fun o => o.isa == "PBXFileReference" && fileName o == name) = true := by
  simp only [List.any_eq_true, Bool.and_eq_true, beq_iff_eq]
  exact ⟨fun ⟨o, ho, hisa, hname⟩ => ⟨o, ho, hisa, hname⟩, fun ⟨o, ho, hisa, hname⟩ => ⟨o, ho, hisa, hname⟩⟩

theorem linkProject_listsFile_zlib :
    (zlibProject []).IsIndexed ∧ (zlibProject []).applicationTargets = .ok [phoneApp] ∧
      ∃ g, linkZlib.run (zlibProject []) = (.ok [], g) ∧ ListsFile g "libz.tbd" := by
  have hindexed : (zlibProject []).IsIndexed := isIndexed_graphOf (by decide +kernel)
  have htargets : (zlibProject []).applicationTargets = .ok [phoneApp] := by rfl
  obtain ⟨g₁, g, hstart, hgains, hrun⟩ := exists_run_linkZlib hindexed htargets (by rfl)
  refine ⟨hindexed, htargets, g, hrun, ?_⟩
  obtain ⟨g₁', hstart', hlists⟩ := linkProject_listsFile_iff hindexed htargets hrun
  obtain rfl := (Prod.mk.inj (hstart.symm.trans hstart')).2
  refine (hlists "libz.tbd" (List.mem_singleton_self _)).mpr ⟨by rfl, .inr fun hfile => ?_⟩
  rcases hgains.hasFile (grows_of_linkProducts hindexed hstart).2.nodup hfile with hold | hin
  · exact absurd (hasFile_iff.mp hold) (by decide +kernel)
  · exact absurd hin (by decide)

/-- An app without a phase. -/
def bareApp : Object := appObject "T1" [("name", .text "App")]

/-- A file of the system library that nothing builds. -/
def zlibFile : Object := bareObject "R1" [("isa", .text "PBXFileReference"), ("path", .text "usr/lib/libz.tbd")]

/-- With nothing left to do by hand the library is not in the app that has no phase, and not in the app whose project
has a file of its name. -/
theorem linkProject_leavesOut :
    (∃ g, (appProject bareApp []).applicationTargets = .ok [bareApp] ∧
      linkZlib.run (appProject bareApp []) = (.ok [], g) ∧ ¬ListsFile g "libz.tbd") ∧
    ∃ g, (zlibProject [zlibFile]).applicationTargets = .ok [phoneApp] ∧
      linkZlib.run (zlibProject [zlibFile]) = (.ok [], g) ∧ ¬ListsFile g "libz.tbd" := by
  constructor
  · have hindexed : (appProject bareApp []).IsIndexed := isIndexed_graphOf (by decide +kernel)
    have htargets : (appProject bareApp []).applicationTargets = .ok [bareApp] := by rfl
    obtain ⟨-, g, -, -, hrun⟩ := exists_run_linkZlib hindexed htargets (by rfl)
    obtain ⟨g₁, phase, -, -, hphase, hsome, hlists⟩ := exists_of_linkProject hindexed htargets hrun
    refine ⟨g, htargets, hrun, fun hlisted => ?_⟩
    have hthere : phase.isSome = true := by
      rcases (hlists "libz.tbd").mp hlisted with hold | ⟨-, -, hthere⟩
      · exact hold.isSome hphase
      · exact hthere
    exact absurd (hsome.symm.trans hthere) (by decide +kernel)
  · have hindexed : (zlibProject [zlibFile]).IsIndexed := isIndexed_graphOf (by decide +kernel)
    have htargets : (zlibProject [zlibFile]).applicationTargets = .ok [phoneApp] := by rfl
    obtain ⟨g₁, g, hstart, hgains, hrun⟩ := exists_run_linkZlib hindexed htargets (by rfl)
    obtain ⟨g₁', phase, hstart', -, -, -, hlists⟩ := exists_of_linkProject hindexed htargets hrun
    obtain rfl := (Prod.mk.inj (hstart.symm.trans hstart')).2
    refine ⟨g, htargets, hrun, fun hlisted => ?_⟩
    rcases (hlists "libz.tbd").mp hlisted with hold | ⟨-, hnot, -⟩
    · have hphase : firstPhase (zlibProject [zlibFile]) = .ok (some (phaseObject "F1")) := by rfl
      rcases hgains.listsFile hphase hold with ⟨p, hp, ref, href, -⟩ | ⟨hin, -⟩
      · obtain rfl := Option.some.inj (Except.ok.inj (hphase.symm.trans hp))
        exact List.not_mem_nil href
      · exact absurd hin (by decide)
    · exact hnot (HasFile.widens (hasFile_iff.mpr (by decide +kernel)) hindexed.nodup hgains.widens)

end Ios
end ModuleLink
