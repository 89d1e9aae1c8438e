import Mathlib
import ModuleLink.Linking.Sides
import ModuleLink.Proofs.Android.Registration
import ModuleLink.Proofs.Linking.Recognition
import ModuleLink.Proofs.Linking.Segments
import ModuleLink.Proofs.Outcome

/-!
The files that linking and unlinking change.  A file is written only where it was read before, so none comes or goes, and
all writing is to a few files of the app.
-/

namespace ModuleLink

/-! ## Trees -/

namespace Tree

/-- The same files and folders are there, and the files that no target leads to hold what they held. -/
structure ChangesOnly (targets : List Path) (t t' : Tree) : Prop where
  here : t'.here = t.here
  kinds : ∀ chain, (t'.root.get? chain).map Node.isFolder = (t.root.get? chain).map Node.isFolder
  bytes : ∀ chain, (∀ path ∈ targets, t.locate path ≠ .ok chain) →
    ∀ bytes, t'.root.get? chain = some (.file bytes) ↔ t.root.get? chain = some (.file bytes)

section

variable {targets more : List Path} {t t₁ t' : Tree} {path : Path} {names : List String} {old : ByteArray}

theorem ChangesOnly.refl (targets : List Path) (t : Tree) : ChangesOnly targets t t :=
  ⟨rfl, fun _ => rfl, fun _ _ _ => Iff.rfl⟩

/-- Paths lead where they led. -/
theorem ChangesOnly.locate (h : ChangesOnly targets t t') (path : Path) : t'.locate path = t.locate path := by
  have hfollow : follow [] t'.root (t'.here.join path).parts = follow [] t.root (t.here.join path).parts := by
    rw [h.here]
    exact follow_congr h.kinds _ trivial trivial rfl
  rw [Tree.locate, Tree.locate]
  simp only [hfollow]

theorem ChangesOnly.trans (h : ChangesOnly targets t t₁) (h' : ChangesOnly targets t₁ t') : ChangesOnly targets t t' where
  here := h'.here.trans h.here
  kinds chain := (h'.kinds chain).trans (h.kinds chain)
  bytes chain hchain bytes :=
    (h'.bytes chain (fun path hpath => by rw [h.locate]; exact hchain path hpath) bytes).trans (h.bytes chain hchain bytes)

theorem ChangesOnly.mono (h : ChangesOnly targets t t') (hmore : ∀ path ∈ targets, path ∈ more) :
    ChangesOnly more t t' where
  here := h.here
  kinds := h.kinds
  bytes chain hchain := h.bytes chain fun path hpath => hchain path (hmore path hpath)

theorem HasFile.changesOnly (h : t.HasFile path names old) (hpath : path ∈ targets) (new : ByteArray) :
    ChangesOnly targets t (t.overwrite names new) where
  here := rfl
  kinds chain := (Node.get?_put_file h.node new chain).1
  bytes chain hchain := (Node.get?_put_file h.node new chain).2 fun heq => hchain path hpath (heq ▸ h.located)

end

end Tree

namespace Linking

open Attempt Notice Patch Workspace Xcode

variable {α β : Type}

/-! ## Steps -/

/-- The workspace has the files of the tree, changed at the targets alone. -/
def Within (targets : List Path) (t : Tree) (w : Workspace) : Prop := t.ChangesOnly targets w.tree

section

variable {targets : List Path} {t : Tree} {path : Path} {P : Workspace → Prop}

theorem keeps_look (question : Tree → Except Fault α) : Keeps P (look question) := fun _ h => h

theorem gives_look {Q : α → Prop} {question : Tree → Except Fault α} (h : ∀ t a, question t = .ok a → Q a) :
    Gives P Q (look question) := fun w hw => ⟨hw, fun a ha => h w.tree a ha⟩

theorem keeps_tell {τ : Type} [HasNotices τ] {P : τ → Prop} (hP : ∀ n s, P s → P (HasNotices.note n s)) (level : Level)
    (text : String) : Keeps P (tell level text : Attempt τ Unit) := fun s hs => hP _ s hs

/-- A step that writes over the file at a target, or over none, stays within the targets. -/
theorem keeps_within {x : Step α} (h : ∀ w, Tree.ChangesOnly targets w.tree (x.run w).2.tree) :
    Keeps (Within targets t) x := fun w hw => hw.trans (h w)

theorem keeps_applyTo (p : Insertion) (hpath : path ∈ targets) : Keeps (Within targets t) (p.applyTo path) := by
  refine keeps_within fun w => ?_
  cases hempty : p.isEmpty with
  | true =>
    simp only [Insertion.applyTo, hempty, if_true]
    exact .refl _ _
  | false =>
    cases hread : w.tree.readText path with
    | ok content =>
      obtain ⟨names, hfile⟩ := Tree.hasFile_of_readText hread
      rw [Insertion.run_applyTo_eq hempty hfile]
      split
      · exact hfile.changesOnly hpath _
      · exact .refl _ _
      · exact .refl _ _
    | error f =>
      simp only [Insertion.applyTo, hempty, Bool.false_eq_true, if_false]
      rw [run_bind_error (by rw [run_readText, hread])]
      exact .refl _ _

theorem keeps_revertIn (p : Insertion) (hpath : path ∈ targets) : Keeps (Within targets t) (p.revertIn path) := by
  refine keeps_within fun w => ?_
  rcases Insertion.run_revertIn_cases p path w with hsame | ⟨names, content, changed, hfile, -, hsame⟩
  · rw [hsame]
    exact .refl _ _
  · rw [hsame]
    exact hfile.changesOnly hpath _

end

/-! ## Android -/

section

variable {t : Tree} (name : String) (library : Android.Library) (app : Android.App)

/-- The files of an app that libraries are inserted into. -/
def androidTargets (app : Android.App) : List Path := [app.settingsGradle, app.buildGradle, app.strings, app.mainFile]

theorem mem_androidTargets {here : Path} {params : Answers} {ps : List (Path × Insertion)}
    (h : Android.insertions here name library params app = .ok ps) : ∀ x ∈ ps, x.1 ∈ androidTargets app := by
  obtain ⟨appName, instance_, -, -, rfl⟩ := Android.insertions_eq_ok h
  simp [androidTargets]

theorem keeps_insert {targets : List Path} {path : Path} (p : Insertion) (hpath : path ∈ targets) :
    Keeps (Within targets t) (Android.insert path p) := by
  refine keeps_within fun w => ?_
  rcases Android.run_insert_cases p path w with hsame | ⟨names, content, changed, hfile, -, hsame⟩
  · rw [hsame]
    exact .refl _ _
  · rw [hsame]
    exact hfile.changesOnly hpath _

theorem keeps_registerAndroid (params : Answers) :
    Keeps (Within (androidTargets app) t) (Android.register name library params app) := by
  have hps : Gives (Within (androidTargets app) t) (fun ps => ∀ x ∈ ps, x.1 ∈ androidTargets app)
      (look fun t => Android.insertions t.here name library params app) :=
    gives_look fun _ _ h => mem_androidTargets name library app h
  refine (hps.bind fun ps hps => Keeps.gives ?_).keeps
  exact (keeps_mapM fun x hx => keeps_insert x.2 (hps x hx)).bind fun _ => keeps_pure _

theorem keeps_unregisterAndroid :
    Keeps (Within (androidTargets app) t) (Android.unregister name library app) := by
  have hps : Gives (Within (androidTargets app) t) (fun ps => ∀ x ∈ ps, x.1 ∈ androidTargets app)
      (look fun t => Android.presentInsertions t name library app) := by
    refine gives_look fun t' ps h => ?_
    obtain ⟨params, -, h⟩ := ok_of_bind h
    exact mem_androidTargets name library app h
  refine (hps.bind fun ps hps => Keeps.gives ?_).keeps
  refine (keeps_forIn (fun x hx _ => ?_) _).bind fun _ => keeps_pure _
  exact (keeps_revertIn x.2 (hps x (List.mem_reverse.mp hx))).bind fun _ => keeps_pure _

end

/-! ## iOS -/

section

variable {t : Tree} {targets : List Path} (name : String) (library : Ios.Library) (app : Ios.App)

/-- The files of an app that libraries are written into. -/
def iosTargets (app : Ios.App) : List Path := app.projectFile :: app.podfile?.toList

theorem keeps_isInstalledIos {P : Workspace → Prop} : Keeps P (Ios.isInstalled app library) := by
  rw [Ios.isInstalled]
  split
  · exact (keeps_look _).bind fun _ => keeps_pure _
  · exact keeps_pure _
  · exact (keeps_look _).bind fun _ => (keeps_ofExcept _).bind fun _ => keeps_pure _

theorem changesOnly_save {w : Workspace} {file : Path} {names : List String} {old : ByteArray}
    (hfile : w.tree.HasFile file names old) (htarget : file ∈ targets) (g : Graph) :
    w.tree.ChangesOnly targets ((ProjectFile.save file g).run w).2.tree := by
  rw [ProjectFile.save]
  split
  · rcases hserialise : g.serialise with f | text
    · rw [run_bind_error (by rw [run_ofExcept])]
      exact .refl _ _
    · rw [run_bind_ok (by rw [run_ofExcept]), run_bind_ok (run_writeText hfile _)]
      have hrest : Keeps (Within targets w.tree) (do let _ ← Attempt.ofExcept (Graph.load g.source text) : Step Unit) :=
        (keeps_ofExcept _).bind fun _ => keeps_pure _
      exact hrest _ (hfile.changesOnly htarget _)
  · exact .refl _ _

theorem keeps_editProject {edits : Tree → Graph → Editing α} {project : Path} :
    Keeps (Within (iosTargets app) t) (Ios.editProject app project edits) := by
  refine keeps_within fun w => ?_
  rw [Ios.editProject, run_bind_ok (run_get w)]
  rcases hgraph : ProjectFile.load w.tree app.projectFile with f | g₀
  · rw [run_bind_error (by rw [run_look, hgraph])]
    exact .refl _ _
  rw [run_bind_ok (by rw [run_look, hgraph])]
  rcases hbuilt : ProjectFile.load w.tree (Ios.projectFile project) with f | built
  · rw [run_bind_error (by rw [run_look, hbuilt])]
    exact .refl _ _
  rw [run_bind_ok (by rw [run_look, hbuilt])]
  rcases ProjectFile.edited (edits w.tree built) g₀ with f | ⟨a, g⟩
  · rw [run_bind_error (run_ofExcept _ _)]
    exact .refl _ _
  rw [run_bind_ok (run_ofExcept _ _)]
  obtain ⟨names, content, hfile⟩ := Ios.exists_hasFile_of_load hgraph
  have hsave : Within (iosTargets app) w.tree ((ProjectFile.save app.projectFile g).run w).2 :=
    changesOnly_save hfile (by simp [iosTargets]) g
  exact state_bind hsave fun _ => keeps_pure _

theorem route_podLine {podfile podspec : Path} (h : Ios.route app library = .podLine podfile podspec) :
    podfile ∈ iosTargets app := by
  rw [Ios.route] at h
  split at h <;> simp_all [iosTargets]

theorem keeps_registerIos : Keeps (Within (iosTargets app) t) (Ios.register name library app) := by
  rw [Ios.register]
  split
  next podfile podspec hroute =>
    refine keeps_get.bind fun w => (keeps_applyTo _ (route_podLine library app hroute)).outcome.bind fun r => ?_
    split
    · exact keeps_pure _
    · split
      · exact keeps_pure _
      · exact keeps_throw _
  · exact keeps_pure _
  · exact keeps_editProject app

theorem keeps_unregisterIos (others : List Ios.Library) :
    Keeps (Within (iosTargets app) t) (Ios.unregister name library app others) := by
  rw [Ios.unregister]
  split
  next podfile podspec hroute =>
    refine keeps_get.bind fun w => (keeps_revertIn _ (route_podLine library app hroute)).bind fun _ => keeps_pure _
  · exact keeps_pure _
  · exact (keeps_editProject app).bind fun _ => keeps_pure _

end

/-! ## Platforms -/

/-- The files of an app that a platform writes into. -/
def targetsOn : (p : Platform) → AppSide p → List Path
  | .ios, app => iosTargets app
  | .android, app => androidTargets app

/-- The files that a run on some platforms writes into. -/
def targets (app? : (p : Platform) → Option (AppSide p)) (platforms : List Platform) : List Path :=
  platforms.flatMap fun p => (app? p).elim [] (targetsOn p)

/-- An app on some platforms, linked as the platforms do it. -/
def appHost (app? : (p : Platform) → Option (AppSide p)) (platforms : List Platform) :
    Host Workspace AppSide LibrarySide where
  platforms := platforms
  app? := app?
  capability? p := return some (capability p)

section

variable {t : Tree} {P : Workspace → Prop} {p : Platform} (app : AppSide p) (library : LibrarySide p) (name : String)

theorem keeps_isInstalled : Keeps P ((capability p).isInstalled app name library) := by
  cases p with
  | ios => exact keeps_isInstalledIos library app
  | android => exact keeps_look _

theorem keeps_hasRegistration : Keeps P ((capability p).hasRegistration app name library) := by
  cases p with
  | ios => exact keeps_isInstalledIos library app
  | android => exact keeps_look _

theorem keeps_register (values : Answers) :
    Keeps (Within (targetsOn p app) t) ((capability p).register name library values app) := by
  cases p with
  | ios => exact keeps_registerIos name library app
  | android => exact keeps_registerAndroid name library app values

theorem keeps_unregister (others : List (Dependency LibrarySide)) :
    Keeps (Within (targetsOn p app) t) ((capability p).unregister name library app others) := by
  cases p with
  | ios => exact keeps_unregisterIos name library app _
  | android => exact keeps_unregisterAndroid name library app

/-! ## Steps of linking -/

variable {ask : Param → Step String} {d : Dependency LibrarySide}

theorem keeps_besideAnswers {x : Step α} (h : Keeps P x) :
    Keeps (fun s : Answers × Workspace => P s.2) (besideAnswers x) := fun s hs => h s.2 hs

theorem keeps_resolveOne (hask : ∀ q, Keeps P (ask q)) (q : Param) :
    Keeps (fun s : Answers × Workspace => P s.2) (Answers.resolveOne ask q) := by
  refine keeps_get.bind fun s => ?_
  dsimp only
  split
  · exact keeps_pure _
  · exact (keeps_besideAnswers (hask q)).bind fun value => Keeps.bind (fun _ h => h) fun _ => keeps_pure _

theorem keeps_resolve (hask : ∀ q, Keeps P (ask q)) (ps : List Param) :
    Keeps (fun s : Answers × Workspace => P s.2) (Answers.resolve ask ps) := by
  rw [Answers.resolve]
  generalize ([] : Answers) = done
  induction ps generalizing done with
  | nil => exact keeps_pure _
  | cons q ps ih =>
    rw [List.foldlM_cons]
    exact ((keeps_resolveOne hask q).bind fun _ => keeps_pure _).bind ih

theorem keeps_linkStep (hask : ∀ q, Keeps (Within (targetsOn p app) t) (ask q)) :
    Keeps (fun s : Answers × Workspace => Within (targetsOn p app) t s.2)
      (linkStep ask d p (capability p) app library) := by
  refine (keeps_resolve hask _).bind fun values => ?_
  refine (keeps_besideAnswers (keeps_isInstalled app library d.name)).bind fun installed => ?_
  split
  · exact (keeps_tell (fun _ _ h => h) _ _).bind fun _ => keeps_pure _
  refine (keeps_tell (fun _ _ h => h) _ _).bind fun _ => ?_
  refine (keeps_besideAnswers (keeps_register app library d.name values)).bind fun left => ?_
  split
  · exact keeps_pure _
  · refine (keeps_forIn (fun _ _ _ => ?_) _).bind fun _ => keeps_pure _
    exact (keeps_tell (fun _ _ h => h) _ _).bind fun _ => keeps_pure _

theorem keeps_unlinkStep (others : List (Dependency LibrarySide)) :
    Keeps (Within (targetsOn p app) t) (unlinkStep others d p (capability p) app library) := by
  refine (keeps_hasRegistration app library d.name).bind fun registered => ?_
  split
  · refine (keeps_tell (fun _ _ h => h) _ _).bind fun _ => ?_
    refine (keeps_unregister app library d.name _).bind fun left => ?_
    refine (keeps_forIn (fun _ _ _ => ?_) _).bind fun _ => keeps_pure _
    exact (keeps_tell (fun _ _ h => h) _ _).bind fun _ => keeps_pure _
  · exact (keeps_tell (fun _ _ h => h) _ _).bind fun _ => keeps_pure _

end

/-- There is nothing to do in a turn. -/
def Status.IsQuiet (status : Status) : Prop :=
  status = .notApplicable ∨ status = .alreadyLinked ∨ status = .notLinked

section

variable {t : Tree} {p : Platform} {app : AppSide p} {library : LibrarySide p} {ask : Param → Step String}
  {d : Dependency LibrarySide} {status : Status} {detail : String}

/-- A library that is linked already is found so without a change. -/
theorem tree_of_linkStep_quiet (hask : ∀ t q, Keeps (fun w : Workspace => w.tree = t) (ask q))
    {s s' : Answers × Workspace}
    (h : (linkStep ask d p (capability p) app library).run s = (.ok (status, detail), s')) (hquiet : status.IsQuiet) :
    s'.2.tree = s.2.tree := by
  have hresolve : Keeps (fun s' : Answers × Workspace => s'.2.tree = s.2.tree) (Answers.resolve ask d.params) :=
    keeps_resolve (hask s.2.tree) d.params
  have hinstalled : Keeps (fun s' : Answers × Workspace => s'.2.tree = s.2.tree)
      (besideAnswers ((capability p).isInstalled app d.name library)) :=
    keeps_besideAnswers (P := fun w => w.tree = s.2.tree) (keeps_isInstalled app library d.name)
  obtain ⟨values, s₁, hvalues, h⟩ := run_bind_eq_ok h
  obtain ⟨installed, s₂, hrun, h⟩ := run_bind_eq_ok h
  have hs₁ := run_of_keeps hresolve hvalues rfl
  have hs₂ := run_of_keeps hinstalled hrun hs₁
  split at h
  · obtain ⟨_, s₃, htell, h⟩ := run_bind_eq_ok h
    obtain ⟨-, rfl⟩ := run_pure_eq_ok h
    obtain ⟨-, rfl⟩ := Prod.mk.inj htell
    exact hs₂
  · exfalso
    obtain ⟨_, s₃, -, h⟩ := run_bind_eq_ok h
    obtain ⟨left, s₄, -, h⟩ := run_bind_eq_ok h
    split at h
    · obtain ⟨hstatus, -⟩ := run_pure_eq_ok h
      obtain rfl := (Prod.mk.inj hstatus).1
      simp [Status.IsQuiet] at hquiet
    · obtain ⟨_, s₅, -, h⟩ := run_bind_eq_ok h
      obtain ⟨hstatus, -⟩ := run_pure_eq_ok h
      obtain rfl := (Prod.mk.inj hstatus).1
      simp [Status.IsQuiet] at hquiet

theorem tree_of_unlinkStep_quiet {others : List (Dependency LibrarySide)} {w w' : Workspace}
    (h : (unlinkStep others d p (capability p) app library).run w = (.ok (status, detail), w'))
    (hquiet : status.IsQuiet) : w'.tree = w.tree := by
  have hregistered : Keeps (fun w' : Workspace => w'.tree = w.tree)
      ((capability p).hasRegistration app d.name library) := keeps_hasRegistration app library d.name
  obtain ⟨registered, w₁, hrun, h⟩ := run_bind_eq_ok h
  have hw₁ := run_of_keeps hregistered hrun rfl
  split at h
  · exfalso
    obtain ⟨_, w₂, -, h⟩ := run_bind_eq_ok h
    obtain ⟨left, w₃, -, h⟩ := run_bind_eq_ok h
    obtain ⟨_, w₄, -, h⟩ := run_bind_eq_ok h
    obtain ⟨hstatus, -⟩ := run_pure_eq_ok h
    obtain rfl := (Prod.mk.inj hstatus).1
    simp [Status.IsQuiet] at hquiet
  · obtain ⟨_, w₂, htell, h⟩ := run_bind_eq_ok h
    obtain ⟨-, rfl⟩ := run_pure_eq_ok h
    obtain ⟨-, rfl⟩ := Prod.mk.inj htell
    exact hw₁

/-! ## Turns -/

theorem run_stepFor?_appHost (app? : (p : Platform) → Option (AppSide p)) (platforms : List Platform)
    (d : Dependency LibrarySide) (p : Platform)
    (step : (p : Platform) → Capability Workspace AppSide LibrarySide p → AppSide p → LibrarySide p → α) (w : Workspace) :
    ((appHost app? platforms).stepFor? d step p).run w = (none, w) ∨
      ∃ app library, app? p = some app ∧
        ((appHost app? platforms).stepFor? d step p).run w = (some (step p (capability p) app library), w) := by
  rw [Host.stepFor?]
  split
  next app library happ hlibrary => exact .inr ⟨app, library, happ, rfl⟩
  · exact .inl rfl

end

section

variable {app? : (p : Platform) → Option (AppSide p)} {platforms : List Platform} {p : Platform}

/-- What a turn leaves of the files: they changed at the targets of the platform alone, and not at all if there was
nothing to do. -/
structure Leaves (app? : (p : Platform) → Option (AppSide p)) (p : Platform) (t : Tree) (status : Status) (t' : Tree) :
    Prop where
  changes : t.ChangesOnly ((app? p).elim [] (targetsOn p)) t'
  quiet : status.IsQuiet → t' = t

theorem leaves_of_app {app : AppSide p} (happ : app? p = some app) {t t' : Tree} {status : Status}
    (hchanges : t.ChangesOnly (targetsOn p app) t') (hquiet : status.IsQuiet → t' = t) : Leaves app? p t status t' where
  changes := by rwa [happ]
  quiet := hquiet

theorem leaves_linkTurn {ask : Param → Step String} (hask : ∀ q w, ((ask q).run w).2.tree = w.tree)
    (d : Dependency LibrarySide) (s : Answers × Workspace) :
    Leaves app? p s.2.tree ((linkTurn (appHost app? platforms) ask d p).run s).1.status
      ((linkTurn (appHost app? platforms) ask d p).run s).2.2.tree := by
  obtain ⟨known, w⟩ := s
  rw [linkTurn]
  have haside := run_asideAnswers ((appHost app? platforms).stepFor? d (linkStep ask d) p) known w
  rcases run_stepFor?_appHost app? platforms d p (linkStep ask d) w with hstep | ⟨app, library, happ, hstep⟩
  · rw [hstep] at haside
    rw [turnOn_of_none haside]
    exact ⟨.refl _ _, fun _ => rfl⟩
  rw [hstep] at haside
  have hwithin : Within (targetsOn p app) w.tree ((linkStep ask d p (capability p) app library).run (known, w)).2.2 :=
    keeps_linkStep app library (fun q w' hw' => hw'.trans (hask q w' ▸ .refl _ _)) (known, w) (.refl _ _)
  rcases hrun : (linkStep ask d p (capability p) app library).run (known, w) with ⟨f | ⟨status, detail⟩, s'⟩
  · rw [hrun] at hwithin
    rw [turnOn_of_error haside hrun]
    exact leaves_of_app happ hwithin fun hquiet => by simp [Status.IsQuiet] at hquiet
  · rw [hrun] at hwithin
    rw [turnOn_of_ok haside hrun]
    exact leaves_of_app happ hwithin (tree_of_linkStep_quiet (fun t q w' hw' => (hask q w').trans hw') hrun)

theorem leaves_unlinkTurn (others : List (Dependency LibrarySide)) (d : Dependency LibrarySide) (w : Workspace) :
    Leaves app? p w.tree ((unlinkTurn (appHost app? platforms) others d p).run w).1.status
      ((unlinkTurn (appHost app? platforms) others d p).run w).2.tree := by
  rw [unlinkTurn]
  rcases run_stepFor?_appHost app? platforms d p (unlinkStep others d) w with hstep | ⟨app, library, happ, hstep⟩
  · rw [turnOn_of_none hstep]
    exact ⟨.refl _ _, fun _ => rfl⟩
  have hwithin : Within (targetsOn p app) w.tree ((unlinkStep others d p (capability p) app library).run w).2 :=
    keeps_unlinkStep app library others w (.refl _ _)
  rcases hrun : (unlinkStep others d p (capability p) app library).run w with ⟨f | ⟨status, detail⟩, w'⟩
  · rw [hrun] at hwithin
    rw [turnOn_of_error hstep hrun]
    exact leaves_of_app happ hwithin fun hquiet => by simp [Status.IsQuiet] at hquiet
  · rw [hrun] at hwithin
    rw [turnOn_of_ok hstep hrun]
    exact leaves_of_app happ hwithin (tree_of_unlinkStep_quiet hrun)

/-! ## Runs -/

/-- A run in turns that makes and deletes no file, changes the files at the targets alone, and none in a turn with nothing
to do. -/
def HasFootprint {τ : Type} (tree : τ → Tree) (run : StateM τ (List Result))
    (turn : Dependency LibrarySide → Platform → StateM τ (List Result)) (targets : List Path) (platforms : List Platform)
    (ds : List (Dependency LibrarySide)) (s : τ) : Prop :=
  ∃ segments s', run.run s = (segments.flatten.map (·.result), s') ∧ IsRecord turn platforms ds s segments s' ∧
    (tree s).ChangesOnly targets (tree s') ∧
    ∀ u ∈ segments.flatten, u.result.status.IsQuiet → tree u.after = tree u.before

theorem IsRecord.footprint {τ : Type} {tree : τ → Tree} {turn : Dependency LibrarySide → Platform → StateM τ Result}
    {ds : List (Dependency LibrarySide)} {s s' : τ} {segments : List (List (Turn τ))}
    (h : IsRecord (fun d p => walk (turn d) [p]) platforms ds s segments s')
    (hturn : ∀ d p s, Leaves app? p (tree s) ((turn d p).run s).1.status (tree ((turn d p).run s).2)) :
    (tree s).ChangesOnly (targets app? platforms) (tree s') ∧
      ∀ u ∈ segments.flatten, u.result.status.IsQuiet → tree u.after = tree u.before := by
  have hleaves : ∀ u ∈ segments.flatten, ∃ p ∈ platforms, Leaves app? p (tree u.before) u.result.status (tree u.after) := by
    intro u hu
    obtain ⟨us, hus, hu⟩ := List.mem_flatten.mp hu
    obtain ⟨d, -, -, hturns⟩ := exists_of_forall₂ h.segments us hus
    obtain ⟨p, hp, -, hrun⟩ := hturns u hu
    rw [walk_singleton] at hrun
    obtain ⟨hresult, hafter⟩ := Prod.mk.inj hrun
    exact ⟨p, hp, by rw [← hafter, ← List.head_eq_of_cons_eq hresult]; exact hturn d p u.before⟩
  refine ⟨h.leads.relates (R := fun a b => (tree a).ChangesOnly (targets app? platforms) (tree b)) (fun _ => .refl _ _)
    (fun hab hbc => hab.trans hbc) fun u hu => ?_, fun u hu hquiet => ?_⟩
  · obtain ⟨p, hp, hleaves⟩ := hleaves u hu
    exact hleaves.changes.mono fun path hpath => List.mem_flatMap.mpr ⟨p, hp, hpath⟩
  · obtain ⟨p, -, hleaves⟩ := hleaves u hu
    exact hleaves.quiet hquiet

end

/-- Linking and unlinking make and delete no file and change only the files of the app that the platforms of the run write
into, whatever fails on the way; a turn that ends without anything to do changes no file at all. -/
theorem link_unlink_footprint (app? : (p : Platform) → Option (AppSide p)) (platforms : List Platform)
    (ask : Param → Step String) (hask : ∀ q w, ((ask q).run w).2.tree = w.tree)
    (others ds : List (Dependency LibrarySide)) (known : Answers) (w : Workspace) :
    HasFootprint (fun s : Answers × Workspace => s.2.tree) (link (appHost app? platforms) ask ds)
      (fun d p => link ((appHost app? platforms).only p) ask [d]) (targets app? platforms) platforms ds (known, w) ∧
    HasFootprint Workspace.tree (unlink (appHost app? platforms) others ds)
      (fun d p => unlink ((appHost app? platforms).only p) others [d]) (targets app? platforms) platforms ds w := by
  constructor
  · obtain ⟨segments, s', hrun, hrecord⟩ := exists_record_link (appHost app? platforms) ask ds (known, w)
    refine ⟨segments, s', hrun, hrecord, ?_⟩
    simp only [link_only] at hrecord
    exact hrecord.footprint fun d p s => leaves_linkTurn hask d s
  · obtain ⟨segments, w', hrun, hrecord⟩ := exists_record_unlink (appHost app? platforms) others ds w
    refine ⟨segments, w', hrun, hrecord, ?_⟩
    simp only [unlink_only] at hrecord
    exact hrecord.footprint fun d p w => leaves_unlinkTurn others d w

/-- An app on both platforms. -/
def plainApps : (p : Platform) → Option (AppSide p)
  | .ios => some (Ios.plainApp (some podfilePath))
  | .android => some Android.shortApp

/-- A library with a podspec that wants a value. -/
def fooDependency : Dependency LibrarySide where
  name := "foo"
  folder := ⟨"", ["node_modules", "foo"]⟩
  side?
    | .ios => some (Ios.plainLibrary (.pod fooPodspec))
    | .android => none
  params := [{ name := "key" }]

theorem link_unlink_footprint_terminal :
    (∀ q w, ((askTerminal q).run w).2.tree = w.tree) ∧
    HasFootprint (fun s : Answers × Workspace => s.2.tree)
      (link (appHost plainApps [.ios, .android]) askTerminal [fooDependency])
      (fun d p => link ((appHost plainApps [.ios, .android]).only p) askTerminal [d])
      (targets plainApps [.ios, .android]) [.ios, .android] [fooDependency] ([], Ios.plainWorkspace emptyTarget) ∧
    (((link (appHost plainApps [.ios, .android]) askTerminal [fooDependency]).run
      ([], Ios.plainWorkspace emptyTarget)).1.map (·.status) = [.linked, .notApplicable]) := by
  have hask : ∀ q w, ((askTerminal q).run w).2.tree = w.tree := fun _ _ => rfl
  exact ⟨hask, (link_unlink_footprint plainApps [.ios, .android] askTerminal hask [] [fooDependency] []
    (Ios.plainWorkspace emptyTarget)).1, by decide +kernel⟩

end Linking
end ModuleLink
