import ModuleLink.Proofs.Android.Registration
import ModuleLink.Proofs.Outcome

/-!
Libraries of which only a part could be linked into an Android app.  The text of the package insertion depends on the
params, and these are found again in the string resources only.  So a package insertion that names a param is lost sight
of where the resource file had no place for the params.
-/

namespace ModuleLink
namespace Android

open Patch Insertion Workspace

variable {name instance_ stem : String} {library : Library} {params : Answers} {app : App} {t : Tree} {w w' : Workspace}

/-! ## Placeholders without params -/

theorem lookup_nil (stem : String) (key : List Char) : lookup [] stem key = "null".toList := rfl

/-- A param is called up by a longer text than none. -/
theorem lookup_nil_cases (params : Answers) (stem : String) (key : List Char) :
    lookup params stem key = lookup [] stem key ∨ (lookup [] stem key).length < (lookup params stem key).length := by
  rw [lookup_nil, lookup]
  split
  · split
    · exact Or.inl rfl
    · right
      have hnull : "null".toList.length = 4 := by decide
      have hget : "getResources().getString(R.string.".toList.length = 34 := by decide
      rw [hnull, List.length_append, List.length_append, List.length_append, List.length_append, hget]
      omega
  · exact Or.inl rfl

/-- Without the params the text is the same, or it is shorter. -/
theorem fillChars_nil_cases (params : Answers) (stem : String) (cs : List Char) :
    fillChars params stem cs = fillChars [] stem cs ∨
      (fillChars [] stem cs).length < (fillChars params stem cs).length := by
  fun_induction fillChars params stem cs with
  | case1 => left; rw [fillChars]
  | case2 c rest key after hkey ih =>
    rw [fillChars_of_placeholder hkey, List.length_append, List.length_append]
    rcases lookup_nil_cases params stem key with hhere | hhere <;> rcases ih with hthere | hthere
    · exact Or.inl (by rw [hhere, hthere])
    · rw [hhere]
      exact Or.inr (by omega)
    · rw [hthere]
      exact Or.inr (by omega)
    · exact Or.inr (by omega)
  | case3 c rest hnone ih =>
    rw [fillChars_of_none hnone, List.length_cons, List.length_cons]
    rcases ih with ih | ih
    · exact Or.inl (by rw [ih])
    · exact Or.inr (by omega)

theorem fill_nil_cases (instance_ : String) (params : Answers) (stem : String) :
    fill instance_ params stem = fill instance_ [] stem ∨
      (packageInsertion instance_ [] stem).chars.length < (packageInsertion instance_ params stem).chars.length := by
  rcases fillChars_nil_cases params stem instance_.toList with h | h
  · left
    rw [fill, fill, h]
  · right
    simp only [packageInsertion, Insertion.chars, fill, String.toList_append, String.toList_ofList, List.length_append]
    omega

/-! ## What is recognised and undone -/

/-- The package insertion is the same when it is worked out again after linking: it does not depend on the params, or
it cannot be made anyway, or the resource file has a place for the params. -/
def RecallsPackage (t : Tree) (app : App) (instance_ : String) (params : Answers) (stem : String) : Prop :=
  fill instance_ params stem = fill instance_ [] stem ∨
    ¬(packageInsertion instance_ params stem).Fits app.mainFile t ∨
    (stringsInsertion params stem).Fits app.strings t

theorem anyM_eq_true {α : Type} {f : α → Except Fault Bool} {xs : List α} (hall : ∀ x ∈ xs, ∃ b, f x = .ok b)
    (hsome : ∃ x ∈ xs, f x = .ok true) : xs.anyM f = .ok true := by
  induction xs with
  | nil => simp at hsome
  | cons x xs ih =>
    obtain ⟨b, hb⟩ := hall x (by simp)
    cases b with
    | true =>
      rw [List.anyM, hb]
      rfl
    | false =>
      have hrest : ∃ y ∈ xs, f y = .ok true := by
        obtain ⟨y, hy, htrue⟩ := hsome
        rcases List.mem_cons.mp hy with rfl | hy
        · rw [hb] at htrue
          contradiction
        · exact ⟨y, hy, htrue⟩
      rw [List.anyM, hb]
      exact ih (fun y hy => hall y (by simp [hy])) hrest

theorem eq_false_of_anyM {α : Type} {f : α → Except Fault Bool} {xs : List α} (h : xs.anyM f = .ok false) :
    ∀ x ∈ xs, f x = .ok false := by
  induction xs with
  | nil => simp
  | cons x xs ih =>
    rw [List.anyM] at h
    rcases hx : f x with e | b
    · rw [hx] at h
      contradiction
    · cases b with
      | true =>
        rw [hx] at h
        change Except.ok true = Except.ok false at h
        contradiction
      | false =>
        rw [hx] at h
        exact List.forall_mem_cons.mpr ⟨hx, ih h⟩

theorem isInstalled_of_not_hasRegistration (h : hasRegistration t app name library = .ok false) :
    isInstalled t app name = .ok false := by
  rw [hasRegistration] at h
  obtain ⟨installed, hinstalled, h⟩ := ok_of_bind h
  cases installed with
  | true => exact absurd (Except.ok.inj h) (by decide)
  | false => exact hinstalled

/-- Where nothing of the library is recognised, it is worked out what unlinking would take out, and none of it is in its
file. -/
theorem exists_isIdle_of_not_hasRegistration (h : hasRegistration t app name library = .ok false) :
    ∃ ps, presentInsertions t name library app = .ok ps ∧ ∀ x ∈ ps, x.2.IsIdle x.1 t := by
  have hpresent := h
  rw [hasRegistration, bind_of_ok (isInstalled_of_not_hasRegistration h)] at hpresent
  obtain ⟨ps, hps, hnone⟩ := ok_of_bind hpresent
  refine ⟨ps, hps, fun x hx => ?_⟩
  have hfalse := eq_false_of_anyM hnone x hx
  change (if x.2.isEmpty then pure false else x.2.isApplied t x.1) = .ok false at hfalse
  split at hfalse
  next hempty => exact Or.inl hempty
  · exact Or.inr hfalse

/-- The params were looked for, so the resource file is a text or missing. -/
theorem isTextOrMissing_of_not_hasRegistration (h : hasRegistration t app name library = .ok false) :
    t.IsTextOrMissing app.strings := by
  obtain ⟨ps, hps, -⟩ := exists_isIdle_of_not_hasRegistration h
  obtain ⟨params, hparams, -⟩ := ok_of_bind hps
  exact isTextOrMissing_of_moduleParams hparams

/-- Whatever insertions were made, the library is recognised by the last of them. -/
theorem hasRegistration_of_trail {ps : List (Path × Insertion)}
    (hps : presentInsertions w'.tree name library app = .ok ps) (htrail : Trail ps w w') (hne : w' ≠ w)
    (hbuild : w'.tree.IsTextOrMissing app.buildGradle) (hfiles : ∀ x ∈ ps, w'.tree.IsTextOrMissing x.1) :
    hasRegistration w'.tree app name library = .ok true := by
  obtain ⟨b, hb⟩ : ∃ b, isInstalled w'.tree app name = .ok b := by
    rw [isInstalled]
    rcases hbuild with ⟨content, hread⟩ | ⟨q, hread⟩
    · exact ⟨_, by rw [hread]⟩
    · exact ⟨_, by rw [hread]⟩
  rw [hasRegistration, hb]
  cases b with
  | true => rfl
  | false =>
    obtain ⟨x, hx, hempty, happlied⟩ := htrail.exists_isApplied hne
    rw [hps]
    refine anyM_eq_true (fun y hy => ?_) ⟨x, hx, ?_⟩
    · show ∃ b, (if y.2.isEmpty then pure false else y.2.isApplied w'.tree y.1) = .ok b
      split
      · exact ⟨false, rfl⟩
      · exact exists_isApplied_eq (hfiles y hy)
    · show (if x.2.isEmpty then pure false else x.2.isApplied w'.tree x.1) = .ok true
      rw [hempty, happlied]
      rfl

/-- Taking out a shorter text than the one that was inserted does not give the old content back. -/
theorem readText_revertIn_ne {p q : Insertion} {path : Path} (hmade : p.MadeIn path w w')
    (hshort : q.chars.length < p.chars.length) :
    ((q.revertIn path).run w').2.tree.readText path ≠ w.tree.readText path := by
  obtain ⟨names, content, changed, hfile, hin, rfl⟩ := hmade
  obtain ⟨a, s, e, hp, hplaces, hchanged⟩ := hin.split
  have hfile' := hfile.overwrite (String.ofList changed).toUTF8
  have hlength : changed.length = content.toList.length + p.chars.length := by
    have hle := places_stop_le a hplaces
    rw [hchanged, insertAt]
    simp only [List.length_append, List.length_take, List.length_drop]
    omega
  rw [Tree.readText_of_hasFile hfile]
  intro hsame
  rcases run_revertIn_cases q path { w with tree := w.tree.overwrite names (String.ofList changed).toUTF8 } with
    htree | ⟨names', content', changed', hfile'', hrevert, htree⟩
  · rw [htree, Tree.readText_of_hasFile hfile', Except.ok.injEq] at hsame
    rw [← hsame, String.toList_ofList] at hlength
    omega
  · have hcontent : content' = String.ofList changed := by
      have hread := Tree.readText_of_hasFile hfile''
      rw [Tree.readText_of_hasFile hfile', Except.ok.injEq] at hread
      exact hread.symm
    have hle := length_le_of_revert hrevert
    rw [htree, Tree.readText_of_hasFile (hfile''.overwrite _), Except.ok.injEq] at hsame
    rw [hcontent, String.toList_ofList, hlength, ← hsame, String.toList_ofList] at hle
    omega

/-- Where the params have no place, what is worked out again without them still undoes the turns, if the package
insertion does not need them or could not be made. -/
theorem trail_of_turns {p₁ p₂ p₅ : Insertion} {left : List String} (hfiles : FourFiles w.tree app)
    (h : Turns [(app.settingsGradle, p₁), (app.buildGradle, p₂), (app.strings, stringsInsertion params stem),
      (app.mainFile, packageInsertion instance_ params stem), (app.mainFile, p₅)] w w' left)
    (hstrings : ¬(stringsInsertion params stem).Fits app.strings w.tree)
    (hpackage : packageInsertion instance_ [] stem = packageInsertion instance_ params stem ∨
      (¬(packageInsertion instance_ params stem).Fits app.mainFile w.tree ∧
        (packageInsertion instance_ [] stem).isApplied w.tree app.mainFile = .ok false)) :
    Trail [(app.settingsGradle, p₁), (app.buildGradle, p₂), (app.strings, stringsInsertion [] stem),
      (app.mainFile, packageInsertion instance_ [] stem), (app.mainFile, p₅)] w w' := by
  simp only [FourFiles, List.pairwise_cons, List.forall_mem_cons] at hfiles
  obtain ⟨⟨-, hsettings, hsettings', -⟩, ⟨hbuild, hbuild', -⟩, ⟨hmain, -⟩, -⟩ := hfiles
  obtain ⟨w₁, l₁, _, h₁, h, -⟩ := turns_cons h
  obtain ⟨w₂, l₂, _, h₂, h, -⟩ := turns_cons h
  obtain ⟨w₃, l₃, _, h₃, h, -⟩ := turns_cons h
  obtain ⟨w₄, l₄, _, h₄, h₅, -⟩ := turns_cons h
  have hloc₂ : w₂.tree.locate = w.tree.locate := by rw [h₂.locate, h₁.locate]
  have hread : w₂.tree.readText app.strings = w.tree.readText app.strings := by
    rw [h₂.readText_of_apart (hbuild.congr h₁.locate), h₁.readText_of_apart hsettings]
  have hread' : w₃.tree.readText app.mainFile = w.tree.readText app.mainFile := by
    rw [h₃.readText_of_apart (hmain.congr hloc₂), h₂.readText_of_apart (hbuild'.congr h₁.locate),
      h₁.readText_of_apart hsettings']
  refine h₁.trail (h₂.trail ?_)
  have hsame : w₃ = w₂ := by
    cases h₃ with
    | empty | missed => rfl
    | made hmade => exact absurd (hmade.fits.congr hread.symm) hstrings
  rw [hsame] at h₄ hread'
  refine .idle (Or.inl (stringsInsertion_isEmpty_iff.mpr rfl)) ?_
  rcases hpackage with hpackage | ⟨hfits, hfalse⟩
  · rw [hpackage]
    exact h₄.trail h₅.trail
  · have hsame' : w₄ = w₂ := by
      cases h₄ with
      | empty | missed => rfl
      | made hmade => exact absurd (hmade.fits.congr hread'.symm) hfits
    rw [hsame'] at h₅
    exact .idle (Or.inr (by rw [isApplied_congr hread', hfalse])) h₅.trail

/-- The insertions without the params of the library do not undo a package insertion that needs them. -/
theorem readText_unregister_ne {p₁ p₂ p₃ p₅ : Insertion} {left : List String} (hfiles : FourFiles w.tree app)
    (h : Turns [(app.settingsGradle, p₁), (app.buildGradle, p₂), (app.strings, p₃),
      (app.mainFile, packageInsertion instance_ params stem), (app.mainFile, p₅)] w w' left)
    (hpackage : (packageInsertion instance_ params stem).Fits app.mainFile w.tree)
    (hshort : (packageInsertion instance_ [] stem).chars.length < (packageInsertion instance_ params stem).chars.length)
    (hpresent : presentInsertions w'.tree name library app = .ok [(app.settingsGradle, p₁), (app.buildGradle, p₂),
      (app.strings, stringsInsertion [] stem), (app.mainFile, packageInsertion instance_ [] stem), (app.mainFile, p₅)]) :
    ((unregister name library app).run w').2.tree.readText app.mainFile ≠ w.tree.readText app.mainFile := by
  simp only [FourFiles, List.pairwise_cons, List.forall_mem_cons] at hfiles
  obtain ⟨⟨-, -, hsettings, -⟩, ⟨-, hbuild, -⟩, ⟨hstrings, -⟩, -⟩ := hfiles
  obtain ⟨w₃, w₄, l₁, l, l₂, hbefore, hturn, hbehind, rfl, hread⟩ :=
    Turns.turn [(app.settingsGradle, p₁), (app.buildGradle, p₂), (app.strings, p₃)] h (by
      simp only [List.forall_mem_cons]
      exact ⟨hsettings, hbuild, hstrings, by simp⟩)
  have hmade : (packageInsertion instance_ params stem).MadeIn app.mainFile w₃ w₄ := by
    cases hturn with
    | empty hempty => rw [packageInsertion_nonempty] at hempty; contradiction
    | made hmade => exact hmade
    | missed _ _ hfits _ => exact absurd (hpackage.congr hread) hfits
  have hne := readText_revertIn_ne hmade hshort
  rw [hread] at hne
  have hloc : w₄.tree.locate = w.tree.locate := by rw [hmade.locate, hbefore.locate]
  -- The import insertion is undone, and from the package insertion on the main file keeps what is left in it.
  have hlast : (revertAll [(app.mainFile, p₅)]).run w' = (.ok ⟨⟩, w₄) := hbehind.trail.run_revertAll
  have hreverse : [(app.settingsGradle, p₁), (app.buildGradle, p₂), (app.strings, stringsInsertion [] stem),
      (app.mainFile, packageInsertion instance_ [] stem), (app.mainFile, p₅)].reverse =
      [(app.mainFile, p₅)] ++ ((app.mainFile, packageInsertion instance_ [] stem) ::
        [(app.strings, stringsInsertion [] stem), (app.buildGradle, p₂), (app.settingsGradle, p₁)]) := rfl
  have hrest := keeps_revertAll (t := w.tree) (q := app.mainFile)
    [(app.strings, stringsInsertion [] stem), (app.buildGradle, p₂), (app.settingsGradle, p₁)]
    (by simp only [List.forall_mem_cons]; exact ⟨hstrings, hbuild, hsettings, by simp⟩)
    ((((packageInsertion instance_ [] stem).revertIn app.mainFile).run w₄).2.tree.readText app.mainFile)
  rw [run_unregister hpresent, hreverse, revertAll_append, bind_assoc, Attempt.run_bind_ok hlast, revertAll, bind_assoc]
  have hend := Attempt.state_bind (f := fun _ => _ >>= fun _ => (pure [] : Step (List String)))
    (x := (packageInsertion instance_ [] stem).revertIn app.mainFile) (s := w₄)
    ⟨(locate_revertIn _ _ _).trans hloc, rfl⟩ fun _ => hrest.bind fun _ => Attempt.keeps_pure _
  rw [hend.2]
  exact hne

/-- A library is recognised and unlinked without a trace, however many of its insertions could be made, exactly if its
package insertion can be recalled.  Otherwise something of it stays behind. -/
theorem unregister_of_recallsPackage {left : List String} (hinst : library.instance_ = .text instance_)
    (hparams : WellNamed params) (hfiles : FourFiles w.tree app)
    (hnone : HoldsNoEntry w.tree app.strings (camelCase name))
    (htrace : hasRegistration w.tree app name library = .ok false) (hfresh : IsFresh w name library params app)
    (h : (register name library params app).run w = (.ok left, w')) (hchanged : w'.tree ≠ w.tree) :
    (RecallsPackage w.tree app instance_ params (camelCase name) →
      hasRegistration w'.tree app name library = .ok true ∧ (unregister name library app).run w' = (.ok [], w)) ∧
    (¬RecallsPackage w.tree app instance_ params (camelCase name) →
      ((unregister name library app).run w').2.tree ≠ w.tree) := by
  obtain ⟨ps, hps, hturns⟩ := turns_of_run_register hfresh h
  obtain ⟨appName, instance', happ, hinst', rfl⟩ := insertions_eq_ok hps
  obtain rfl : instance_ = instance' := by simpa [hinst] using hinst'
  have hne : w' ≠ w := fun e => hchanged (by rw [e])
  have htext := isTextOrMissing_of_not_hasRegistration htrace
  have hempty := moduleParams_of_holdsNoEntry htext hnone
  have hfiles' : ∀ x ∈ [app.settingsGradle, app.buildGradle, app.strings, app.mainFile], w'.tree.IsTextOrMissing x := by
    simp only [List.forall_mem_cons]
    refine ⟨hturns.isTextOrMissing_of_mem
        (p := includeInsertion name library.sourceDir app.settingsGradle w.tree.here appName) (by simp)
        (includeInsertion_nonempty _ _ _ _ _),
      hturns.isTextOrMissing_of_mem (p := buildInsertion name) (by simp) (buildInsertion_nonempty _),
      hturns.isTextOrMissing_iff.mpr htext,
      hturns.isTextOrMissing_of_mem (p := importInsertion library.importPath.asText) (by simp)
        (importInsertion_nonempty _), by simp⟩
  have hundo : ∀ qs, presentInsertions w'.tree name library app = .ok qs → (∀ x ∈ qs, x.1 ∈ [app.settingsGradle,
      app.buildGradle, app.strings, app.mainFile]) → Trail qs w w' →
      hasRegistration w'.tree app name library = .ok true ∧ (unregister name library app).run w' = (.ok [], w) := by
    intro qs hqs hpaths htrail
    exact ⟨hasRegistration_of_trail hqs htrail hne (hfiles' _ (by simp)) fun x hx => hfiles' _ (hpaths x hx),
      run_unregister_of_trail hqs htrail⟩
  rcases moduleParams_of_turns hparams (newline_notMem_camelCase name) hfiles htext hnone hturns with
    ⟨hback, hfits⟩ | ⟨hback, hfits, -⟩
  · have hrecalls : RecallsPackage w.tree app instance_ params (camelCase name) := by
      rcases hfits with rfl | hfits
      · exact Or.inl rfl
      · exact Or.inr (Or.inr hfits)
    refine ⟨fun _ => hundo _ ?_ (by simp) hturns.trail, fun h => absurd hrecalls h⟩
    rw [presentInsertions_eq name library hback, hturns.here, hps]
  · have hpresent := presentInsertions_eq name library hback
    rw [hturns.here, insertions_of_text happ hinst] at hpresent
    have hbefore := presentInsertions_eq name library hempty
    rw [insertions_of_text happ hinst] at hbefore
    obtain ⟨qs, hqs, hidle⟩ := exists_isIdle_of_not_hasRegistration htrace
    obtain rfl := Except.ok.inj (hbefore.symm.trans hqs)
    have habsent := hidle (app.mainFile, packageInsertion instance_ [] (camelCase name)) (by simp)
    rw [Insertion.IsIdle, packageInsertion_nonempty] at habsent
    refine ⟨fun hrecalls => hundo _ hpresent (by simp) (trail_of_turns hfiles hturns hfits ?_), fun hrecalls htree => ?_⟩
    · rcases hrecalls with hfill | hpackage | hstrings
      · exact Or.inl (by rw [packageInsertion, packageInsertion, hfill])
      · exact Or.inr ⟨hpackage, habsent.resolve_left (by simp)⟩
      · exact absurd hstrings hfits
    · rw [RecallsPackage, not_or, not_or, not_not] at hrecalls
      have hshort := (fill_nil_cases instance_ params (camelCase name)).resolve_left hrecalls.1
      exact readText_unregister_ne hfiles hturns hrecalls.2.1 hshort hpresent (by rw [htree])

/-- An app of which only one file is there. -/
def sparseWorkspace (fileName content : String) : Workspace where
  tree := ⟨.folder [(fileName, .file content.toUTF8)], ⟨"/", []⟩⟩

/-- The library is recognised and unlinked where it only became a dependency. -/
theorem unregister_dependency :
    ∃ left w', (register "foo" keyedLibrary [("key", "1")] shortApp).run
        (sparseWorkspace "build.gradle" "dependencies\x7b\n") = (.ok left, w') ∧
      hasRegistration w'.tree shortApp "foo" keyedLibrary = .ok true ∧
      (unregister "foo" keyedLibrary shortApp).run w' = (.ok [], sparseWorkspace "build.gradle" "dependencies\x7b\n") := by
  have hparams : WellNamed [("key", "1")] := by
    refine ⟨fun p hp => ?_, by decide⟩
    obtain rfl := List.mem_singleton.mp hp
    exact ⟨by decide, List.all_eq_true.mp (by decide)⟩
  have hfiles : FourFiles (sparseWorkspace "build.gradle" "dependencies\x7b\n").tree shortApp := by decide +kernel
  have hmissing : (sparseWorkspace "build.gradle" "dependencies\x7b\n").tree.readText shortApp.strings =
      .error (.inaccessible .missing "strings.xml") := by decide +kernel
  have hnone : HoldsNoEntry (sparseWorkspace "build.gradle" "dependencies\x7b\n").tree shortApp.strings
      (camelCase "foo") :=
    fun content hread => by cases hmissing.symm.trans hread
  have htrace : hasRegistration (sparseWorkspace "build.gradle" "dependencies\x7b\n").tree shortApp "foo" keyedLibrary =
      .ok false := by decide +kernel
  have hfresh : IsFresh (sparseWorkspace "build.gradle" "dependencies\x7b\n") "foo" keyedLibrary [("key", "1")]
      shortApp := by decide +kernel
  have hok : ((register "foo" keyedLibrary [("key", "1")] shortApp).run
      (sparseWorkspace "build.gradle" "dependencies\x7b\n")).1.isOk = true := by decide +kernel
  obtain ⟨left, hrun⟩ := Attempt.run_eq_of_isOk hok
  have hread : ((register "foo" keyedLibrary [("key", "1")] shortApp).run
      (sparseWorkspace "build.gradle" "dependencies\x7b\n")).2.tree.readText shortApp.buildGradle ≠
      (sparseWorkspace "build.gradle" "dependencies\x7b\n").tree.readText shortApp.buildGradle := by decide +kernel
  have hmain : (sparseWorkspace "build.gradle" "dependencies\x7b\n").tree.readText shortApp.mainFile =
      .error (.inaccessible .missing "Main.java") := by decide +kernel
  have hrecalls : RecallsPackage (sparseWorkspace "build.gradle" "dependencies\x7b\n").tree shortApp "$\x7bkey\x7d"
      [("key", "1")] (camelCase "foo") := by
    refine Or.inr (Or.inl ?_)
    rintro ⟨a, content, s, e, -, hcontent, -⟩
    cases hmain.symm.trans hcontent
  have hinst : keyedLibrary.instance_ = .text "$\x7bkey\x7d" := rfl
  have hchanged : ((register "foo" keyedLibrary [("key", "1")] shortApp).run
      (sparseWorkspace "build.gradle" "dependencies\x7b\n")).2.tree ≠
      (sparseWorkspace "build.gradle" "dependencies\x7b\n").tree := fun e =>
    hread (congrArg (fun t => t.readText shortApp.buildGradle) e)
  exact ⟨left, _, hrun,
    (unregister_of_recallsPackage hinst hparams hfiles hnone htrace hfresh hrun hchanged).1 hrecalls⟩

/-- A library that takes a key stays in the main file where there is no place for the key. -/
theorem unregister_leaves_package :
    FourFiles (sparseWorkspace "Main.java" "new MainReactPackage()").tree shortApp ∧
      hasRegistration (sparseWorkspace "Main.java" "new MainReactPackage()").tree shortApp "foo" keyedLibrary =
        .ok false ∧
      (sparseWorkspace "Main.java" "new MainReactPackage()").tree.readText shortApp.strings =
        .error (.inaccessible .missing "strings.xml") ∧
      IsFresh (sparseWorkspace "Main.java" "new MainReactPackage()") "foo" keyedLibrary [("key", "1")] shortApp ∧
      ((register "foo" keyedLibrary [("key", "1")] shortApp).run
        (sparseWorkspace "Main.java" "new MainReactPackage()")).1.toOption.getD [] ≠ [] ∧
      ((unregister "foo" keyedLibrary shortApp).run ((register "foo" keyedLibrary [("key", "1")] shortApp).run
        (sparseWorkspace "Main.java" "new MainReactPackage()")).2).2.tree.readText shortApp.mainFile ≠
          .ok "new MainReactPackage()" :=
  ⟨by decide +kernel, by decide +kernel, by decide +kernel, by decide +kernel, by decide +kernel, by decide +kernel⟩

end Android
end ModuleLink
