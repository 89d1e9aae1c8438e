import ModuleLink.Proofs.Android.StringResources
import ModuleLink.Proofs.Android.Turns

/-!
Libraries linked into an Android app and taken out again.  What is taken out is worked out from the app as it is then,
so the params have to be read back from its string resources.
-/

namespace ModuleLink
namespace Android

open Patch Insertion Workspace

variable {name : String} {library : Library} {params : Answers} {app : App} {t : Tree} {w w' : Workspace}

/-! ## The insertions -/

theorem insertions_eq_ok {here : Path} {ps : List (Path × Insertion)}
    (h : insertions here name library params app = .ok ps) :
    ∃ appName instance_, app.appName = .text appName ∧ library.instance_ = .text instance_ ∧ ps = [
      (app.settingsGradle, includeInsertion name library.sourceDir app.settingsGradle here appName),
      (app.buildGradle, buildInsertion name),
      (app.strings, stringsInsertion params (camelCase name)),
      (app.mainFile, packageInsertion instance_ params (camelCase name)),
      (app.mainFile, importInsertion library.importPath.asText)] := by
  rw [insertions] at h
  cases happ : app.appName with
  | text appName =>
    cases hinst : library.instance_ with
    | text instance_ =>
      rw [happ, hinst] at h
      exact ⟨appName, instance_, rfl, rfl, (Except.ok.inj h).symm⟩
    | _ => simp only [happ, hinst] at h; contradiction
  | _ => simp only [happ] at h; contradiction

theorem insertions_of_text {here : Path} {appName instance_ : String} (happ : app.appName = .text appName)
    (hinst : library.instance_ = .text instance_) (params : Answers) :
    insertions here name library params app = .ok [
      (app.settingsGradle, includeInsertion name library.sourceDir app.settingsGradle here appName),
      (app.buildGradle, buildInsertion name),
      (app.strings, stringsInsertion params (camelCase name)),
      (app.mainFile, packageInsertion instance_ params (camelCase name)),
      (app.mainFile, importInsertion library.importPath.asText)] := by
  rw [insertions, happ, hinst]
  rfl

/-- Every insertion goes behind an anchor. -/
theorem isBehind_of_mem_insertions {here : Path} {ps : List (Path × Insertion)}
    (h : insertions here name library params app = .ok ps) : ∀ x ∈ ps, ∃ a, x.2.IsBehind a := by
  obtain ⟨appName, instance_, -, -, rfl⟩ := insertions_eq_ok h
  simp only [List.forall_mem_cons]
  exact ⟨⟨_, rfl, rfl⟩, ⟨_, rfl, rfl⟩, ⟨_, rfl, rfl⟩, ⟨_, rfl, rfl⟩, ⟨_, rfl, rfl⟩, by simp⟩

/-- Each text that linking the library inserts comes to a file that does not hold it yet. -/
def IsFresh (w : Workspace) (name : String) (library : Library) (params : Answers) (app : App) : Prop :=
  ∀ ps, insertions w.tree.here name library params app = .ok ps → FreshInTurn ps w

instance : Decidable (IsFresh w name library params app) :=
  match h : insertions w.tree.here name library params app with
  | .ok ps => decidable_of_iff (FreshInTurn ps w) (by simp [IsFresh, h])
  | .error f => isTrue fun ps hps => by simp [h] at hps

/-- A run of `register` gives each of the insertions its turn. -/
theorem turns_of_run_register {left : List String}
    (hfresh : IsFresh w name library params app) (h : (register name library params app).run w = (.ok left, w')) :
    ∃ ps, insertions w.tree.here name library params app = .ok ps ∧ Turns ps w w' left := by
  obtain ⟨ps, w₁, hlook, h⟩ := Attempt.run_bind_eq_ok h
  rw [run_look, Prod.mk.injEq] at hlook
  obtain ⟨hps, rfl⟩ := hlook
  obtain ⟨lefts, w₂, hrun, h⟩ := Attempt.run_bind_eq_ok h
  obtain ⟨rfl, rfl⟩ := Attempt.run_pure_eq_ok h
  exact ⟨ps, hps, turns_of_run_mapM (isBehind_of_mem_insertions hps) (hfresh ps hps) hrun⟩

theorem run_register {ps : List (Path × Insertion)} (h : insertions w.tree.here name library params app = .ok ps) :
    (register name library params app).run w =
      ((ps.mapM fun x => insert x.1 x.2) >>= fun lefts => (pure lefts.flatten : Step (List String))).run w := by
  have hlook : (look fun t => insertions t.here name library params app).run w = (.ok ps, w) := by rw [run_look, h]
  rw [register, Attempt.run_bind_ok hlook]

theorem run_unregister {ps : List (Path × Insertion)} (h : presentInsertions w.tree name library app = .ok ps) :
    (unregister name library app).run w = (revertAll ps.reverse >>= fun _ => (pure [] : Step (List String))).run w := by
  have hlook : (look fun t => presentInsertions t name library app).run w = (.ok ps, w) := by rw [run_look, h]
  rw [unregister, Attempt.run_bind_ok hlook, ← forIn_revertIn]

/-- Unlinking takes out what a trail has made, and nothing else. -/
theorem run_unregister_of_trail {ps : List (Path × Insertion)} (h : presentInsertions w'.tree name library app = .ok ps)
    (htrail : Trail ps w w') : (unregister name library app).run w' = (.ok [], w) := by
  rw [run_unregister h, Attempt.run_bind_ok htrail.run_revertAll]
  rfl

theorem includeInsertion_nonempty (name : String) (sourceDir settings here : Path) (app : String) :
    (includeInsertion name sourceDir settings here app).isEmpty = false := by
  simp [Insertion.isEmpty, includeInsertion]

theorem buildInsertion_nonempty (name : String) : (buildInsertion name).isEmpty = false := by
  simp [Insertion.isEmpty, buildInsertion]

theorem packageInsertion_nonempty (instance_ : String) (params : Answers) (stem : String) :
    (packageInsertion instance_ params stem).isEmpty = false := by
  simp [Insertion.isEmpty, packageInsertion]

theorem importInsertion_nonempty (importPath : String) : (importInsertion importPath).isEmpty = false := by
  simp [Insertion.isEmpty, importInsertion]

theorem stringsInsertion_isEmpty_iff {stem : String} : (stringsInsertion params stem).isEmpty = true ↔ params = [] := by
  cases params with
  | nil => simp [Insertion.isEmpty, stringsInsertion, entryLines]
  | cons p rest => simp [Insertion.isEmpty, stringsInsertion, entryLines]

/-! ## Placeholders -/

theorem fillChars_of_placeholder {c : Char} {rest key after : List Char}
    (h : placeholder? (c :: rest) = some (key, after)) (params : Answers) (stem : String) :
    fillChars params stem (c :: rest) = lookup params stem key ++ fillChars params stem after := by
  rw [fillChars]
  split
  next key' after' h' =>
    obtain ⟨rfl, rfl⟩ : key = key' ∧ after = after' := by simpa [h] using h'
    rfl
  next h' =>
    rw [h] at h'
    contradiction

theorem fillChars_of_none {c : Char} {rest : List Char} (h : placeholder? (c :: rest) = none) (params : Answers)
    (stem : String) : fillChars params stem (c :: rest) = c :: fillChars params stem rest := by
  rw [fillChars]
  split
  next h' =>
    rw [h] at h'
    contradiction
  · rfl

/-! ## Params read back -/

/-- No entry of the stem starts in the text of the resource file, if it has one. -/
def HoldsNoEntry (t : Tree) (resources : Path) (stem : String) : Prop :=
  ∀ content, t.readText resources = .ok content → Text.occursIn (entryStart stem) content.toList = false

theorem holdsNoEntry_of_readText {resources : Path} {stem : String} (content : String)
    (hread : t.readText resources = .ok content) (h : Text.occursIn (entryStart stem) content.toList = false) :
    HoldsNoEntry t resources stem := by
  intro content' hread'
  obtain rfl : content = content' := by simpa [hread] using hread'
  exact h

/-- Params can be looked for in a text and where nothing is, and nowhere else. -/
theorem moduleParams_cases (t : Tree) (resources : Path) (stem : String) :
    (t.IsTextOrMissing resources ∧ ∃ params, moduleParams t resources stem = .ok params) ∨
      (¬t.IsTextOrMissing resources ∧ ∃ f, moduleParams t resources stem = .error f) := by
  rw [moduleParams, Tree.IsTextOrMissing]
  split
  next content hread => exact Or.inl ⟨Or.inl ⟨content, hread⟩, _, rfl⟩
  next q hread => exact Or.inl ⟨Or.inr ⟨q, hread⟩, _, rfl⟩
  next f hmissing hread =>
    refine Or.inr ⟨?_, f, rfl⟩
    rintro (⟨content, htext⟩ | ⟨q, hgone⟩)
    · rw [hread] at htext
      contradiction
    · rw [hread] at hgone
      exact hmissing q (Except.error.inj hgone)

theorem isTextOrMissing_of_moduleParams {resources : Path} {stem : String}
    (h : moduleParams t resources stem = .ok params) : t.IsTextOrMissing resources := by
  rcases moduleParams_cases t resources stem with ⟨htext, -⟩ | ⟨-, f, hf⟩
  · exact htext
  · rw [h] at hf
    contradiction

theorem exists_moduleParams_eq_error {resources : Path} (h : ¬t.IsTextOrMissing resources) (stem : String) :
    ∃ f, moduleParams t resources stem = .error f := by
  rcases moduleParams_cases t resources stem with ⟨htext, -⟩ | ⟨-, hf⟩
  · exact absurd htext h
  · exact hf

theorem moduleParams_of_holdsNoEntry {resources : Path} {stem : String} (htext : t.IsTextOrMissing resources)
    (h : HoldsNoEntry t resources stem) : moduleParams t resources stem = .ok [] := by
  rw [moduleParams]
  rcases htext with ⟨content, hread⟩ | ⟨q, hread⟩
  · rw [hread]
    simp only [readParams_of_no_entry (h content hread)]
  · rw [hread]

/-- The params are read back from a file that their entries were just put into. -/
theorem moduleParams_of_madeIn {resources : Path} {stem : String} (hparams : WellNamed params)
    (hstem : '\n' ∉ stem.toList) (hnone : HoldsNoEntry w.tree resources stem)
    (h : (stringsInsertion params stem).MadeIn resources w w') :
    moduleParams w'.tree resources stem = .ok params := by
  obtain ⟨names, content, changed, hfile, hmade, rfl⟩ := h
  obtain ⟨a, s, e, hp, hplaces, hchanged⟩ := hmade.split
  obtain rfl : a = .resourcesTag := by simpa [stringsInsertion] using hp.anchor.symm
  obtain ⟨u, m, v, hcontent, hs, he, hfirst⟩ := Anchor.placesFrom_eq_cons _ hplaces
  -- The anchor takes a whole line, so the entries start behind a line end.
  obtain ⟨m', hm, ⟨b, g, rfl, -, -⟩, -⟩ := Anchor.takes_rest? _ _ _ _ hfirst.here
  obtain rfl : m = b ++ '>' :: g ++ ['\n'] := List.append_cancel_right hm
  have hfresh := hnone content (Tree.readText_of_hasFile hfile)
  have hsplit : content.toList = (u ++ (b ++ '>' :: g)) ++ ['\n'] ++ v := by rw [hcontent]; simp
  have hend : e = ((u ++ (b ++ '>' :: g)) ++ ['\n']).length := by
    rw [he, hs]
    simp only [List.length_append, List.length_cons, List.length_nil]
    omega
  have htext : changed = (u ++ (b ++ '>' :: g)) ++ ['\n'] ++ entryLines stem params ++ v := by
    rw [hchanged, insertAt, hsplit, hend, List.take_left, List.drop_left, Insertion.chars, stringsInsertion,
      String.toList_ofList]
  rw [hsplit] at hfresh
  rw [moduleParams, Tree.readText_of_hasFile (hfile.overwrite _)]
  simp only [String.toList_ofList]
  rw [htext, readParams_entryLines hparams hstem hfresh]

/-! ## Linking and unlinking -/

/-- The four files that the insertions go into are different ones. -/
def FourFiles (t : Tree) (app : App) : Prop :=
  [app.settingsGradle, app.buildGradle, app.strings, app.mainFile].Pairwise t.Apart

instance (t : Tree) (app : App) : Decidable (FourFiles t app) := inferInstanceAs (Decidable (List.Pairwise _ _))

/-- What the params read back are after the insertions have had their turns: those that were written, or none where
the resource file had no place for them. -/
theorem moduleParams_of_turns {stem : String} {p₁ p₂ p₄ p₅ : Insertion} {left : List String} (hparams : WellNamed params)
    (hstem : '\n' ∉ stem.toList) (hfiles : FourFiles w.tree app) (htext : w.tree.IsTextOrMissing app.strings)
    (hnone : HoldsNoEntry w.tree app.strings stem)
    (h : Turns [(app.settingsGradle, p₁), (app.buildGradle, p₂), (app.strings, stringsInsertion params stem),
      (app.mainFile, p₄), (app.mainFile, p₅)] w w' left) :
    (moduleParams w'.tree app.strings stem = .ok params ∧
      (params = [] ∨ (stringsInsertion params stem).Fits app.strings w.tree)) ∨
    (moduleParams w'.tree app.strings stem = .ok [] ∧ ¬(stringsInsertion params stem).Fits app.strings w.tree ∧
      left ≠ []) := by
  simp only [FourFiles, List.pairwise_cons, List.forall_mem_cons] at hfiles
  obtain ⟨⟨-, hsettings, -, -⟩, ⟨hbuild, -, -⟩, ⟨hmain, -⟩, -⟩ := hfiles
  obtain ⟨w₁, w₂, l₁, l, l₂, hbefore, hturn, hbehind, rfl, hread⟩ :=
    Turns.turn [(app.settingsGradle, p₁), (app.buildGradle, p₂)] h (by
      simp only [List.forall_mem_cons]
      exact ⟨hsettings, hbuild, by simp⟩)
  have hloc : w₂.tree.locate = w.tree.locate := by rw [hturn.locate, hbefore.locate]
  have hkept : w'.tree.readText app.strings = w₂.tree.readText app.strings := by
    refine hbehind.readText_of_apart ?_
    simp only [List.forall_mem_cons]
    exact ⟨hmain.symm.congr hloc, hmain.symm.congr hloc, by simp⟩
  have hparams_eq : moduleParams w'.tree app.strings stem = moduleParams w₂.tree app.strings stem := by
    rw [moduleParams, moduleParams, hkept]
  have hnone₁ : HoldsNoEntry w₁.tree app.strings stem := by
    rw [HoldsNoEntry, hread]
    exact hnone
  have htext₁ := hbefore.isTextOrMissing_iff.mpr htext
  rw [hparams_eq]
  cases hturn with
  | empty hempty =>
    rw [stringsInsertion_isEmpty_iff.mp hempty]
    exact Or.inl ⟨moduleParams_of_holdsNoEntry htext₁ hnone₁, Or.inl rfl⟩
  | made hmade =>
    exact Or.inl ⟨moduleParams_of_madeIn hparams hstem hnone₁ hmade, Or.inr (hmade.fits.congr hread.symm)⟩
  | missed _ _ hfits hleft =>
    exact Or.inr ⟨moduleParams_of_holdsNoEntry htext₁ hnone₁, fun h => hfits (h.congr hread), by simp [hleft]⟩

theorem presentInsertions_eq (name : String) (library : Library)
    (happ : moduleParams t app.strings (camelCase name) = .ok params) :
    presentInsertions t name library app = insertions t.here name library params app := by
  rw [presentInsertions, happ]
  rfl

/-- Nothing is unlinked where the params cannot be looked for. -/
theorem exists_run_unregister_eq_error (name : String) (library : Library) (h : ¬w.tree.IsTextOrMissing app.strings) :
    ∃ f, (unregister name library app).run w = (.error f, w) := by
  obtain ⟨f, hf⟩ := exists_moduleParams_eq_error h (camelCase name)
  have hlook : (look fun t => presentInsertions t name library app).run w = (.error f, w) := by
    rw [run_look, presentInsertions, hf]
    rfl
  exact ⟨f, by rw [unregister, Attempt.run_bind_error hlook]⟩

/-- Where nothing is left to be made by hand, the first insertion was made, if its text is not empty, and stays. -/
theorem tree_ne_of_turns {p : Insertion} {path : Path} {rest : List (Path × Insertion)} (hempty : p.isEmpty = false)
    (hfresh : p.isApplied w.tree path = .ok false) (hrest : ∀ x ∈ rest, w.tree.Apart x.1 path)
    (h : Turns ((path, p) :: rest) w w' []) : w'.tree ≠ w.tree := by
  obtain ⟨w₁, l, l', hturn, hbehind, hnil⟩ := turns_cons h
  obtain ⟨rfl, rfl⟩ := List.append_eq_nil_iff.mp hnil.symm
  have happlied : p.isApplied w₁.tree path = .ok true := by
    cases hturn with
    | empty hnone => rw [hempty] at hnone; contradiction
    | made hmade => exact hmade.isApplied
    | missed _ _ _ hleft => exact absurd rfl hleft
  have hread := hbehind.readText_of_apart fun x hx => (hrest x hx).congr hturn.locate
  intro htree
  rw [← isApplied_congr hread, htree, hfresh] at happlied
  contradiction

/-- A library that was linked completely is unlinked without a trace exactly if the resource file is a text or missing.
Any other resource file fails unlinking, also where linking had nothing to write into it, and the library stays. -/
theorem unregister_register (hparams : WellNamed params) (hfiles : FourFiles w.tree app)
    (hnone : HoldsNoEntry w.tree app.strings (camelCase name))
    (hfresh : IsFresh w name library params app) (h : (register name library params app).run w = (.ok [], w')) :
    (w.tree.IsTextOrMissing app.strings → (unregister name library app).run w' = (.ok [], w)) ∧
    (¬w.tree.IsTextOrMissing app.strings →
      (∃ f, (unregister name library app).run w' = (.error f, w')) ∧ w'.tree ≠ w.tree) := by
  obtain ⟨ps, hps, hturns⟩ := turns_of_run_register hfresh h
  obtain ⟨appName, instance_, -, -, rfl⟩ := insertions_eq_ok hps
  constructor
  · intro htext
    have hback : moduleParams w'.tree app.strings (camelCase name) = .ok params := by
      rcases moduleParams_of_turns hparams (newline_notMem_camelCase name) hfiles htext hnone hturns with
        ⟨hback, -⟩ | ⟨-, -, hleft⟩
      · exact hback
      · exact absurd rfl hleft
    have hpresent := presentInsertions_eq name library hback
    rw [hturns.here, hps] at hpresent
    exact run_unregister_of_trail hpresent hturns.trail
  · intro htext
    refine ⟨exists_run_unregister_eq_error name library (mt hturns.isTextOrMissing_iff.mp htext), ?_⟩
    have hfirst := (hfresh _ hps).1.resolve_left (by simp [includeInsertion_nonempty])
    simp only [FourFiles, List.pairwise_cons, List.forall_mem_cons] at hfiles
    obtain ⟨⟨hbuild, hstrings, hmain, -⟩, -⟩ := hfiles
    refine tree_ne_of_turns (includeInsertion_nonempty _ _ _ _ _) hfirst ?_ hturns
    simp only [List.forall_mem_cons]
    exact ⟨hbuild.symm, hstrings.symm, hmain.symm, hmain.symm, by simp⟩

/-! ## A library in an app -/

/-- An app whose files have short names. -/
def shortApp : App where
  sourceDir := ⟨"", ["app"]⟩
  folder := {}
  isFlat := true
  manifest := ⟨"", ["app", "AndroidManifest.xml"]⟩
  packageName := .text "com.example"
  packageFolder := "com/example"
  mainFile := ⟨"", ["Main.java"]⟩
  strings := ⟨"", ["strings.xml"]⟩
  settingsGradle := ⟨"", ["settings.gradle"]⟩
  buildGradle := ⟨"", ["build.gradle"]⟩
  appName := .text "app"

/-- A library with a package instance of its own. -/
def fooLibrary (instance_ : String) : Library where
  sourceDir := ⟨"", ["foo"]⟩
  folder := ⟨"", ["foo"]⟩
  manifest := ⟨"", ["foo", "AndroidManifest.xml"]⟩
  packageName := .text "com.foo"
  packageClass := "Foo"
  importPath := .text "import com.foo.Foo;"
  instance_ := .text instance_

/-- The files of the app, with a text for the string resources. -/
def shortTree (resources : String) : Tree where
  root := .folder [
    ("settings.gradle", .file "include ':app'\n".toUTF8),
    ("build.gradle", .file "dependencies \x7b\n".toUTF8),
    ("strings.xml", .file resources.toUTF8),
    ("Main.java", .file "import com.facebook.react.ReactApplication;\nnew MainReactPackage()".toUTF8)]
  here := ⟨"/", []⟩

def shortWorkspace (resources : String) : Workspace := { tree := shortTree resources }

/-- A library whose package takes a key. -/
def keyedLibrary : Library := fooLibrary "$\x7bkey\x7d"

/-- A library that takes a key is linked into an app with a place for it, and unlinked. -/
theorem unregister_register_keyedLibrary :
    ∃ w', (register "foo" keyedLibrary [("key", "1 < 2")] shortApp).run (shortWorkspace "<resources>\n") =
      (.ok [], w') ∧
      (unregister "foo" keyedLibrary shortApp).run w' = (.ok [], shortWorkspace "<resources>\n") := by
  have hparams : WellNamed [("key", "1 < 2")] := by
    refine ⟨fun p hp => ?_, by decide⟩
    obtain rfl := List.mem_singleton.mp hp
    exact ⟨by decide, List.all_eq_true.mp (by decide)⟩
  have hfiles : FourFiles (shortWorkspace "<resources>\n").tree shortApp := by decide +kernel
  have hnone : HoldsNoEntry (shortWorkspace "<resources>\n").tree shortApp.strings (camelCase "foo") :=
    holdsNoEntry_of_readText "<resources>\n" (by decide +kernel) (by decide +kernel)
  have hfresh : IsFresh (shortWorkspace "<resources>\n") "foo" keyedLibrary [("key", "1 < 2")] shortApp := by
    decide +kernel
  have hok : ((register "foo" keyedLibrary [("key", "1 < 2")] shortApp).run (shortWorkspace "<resources>\n")).1 =
      .ok [] := by decide +kernel
  have hrun := Attempt.run_eq_of_fst hok
  have hread : (shortWorkspace "<resources>\n").tree.readText shortApp.strings = .ok "<resources>\n" := by
    decide +kernel
  exact ⟨_, hrun, (unregister_register hparams hfiles hnone hfresh hrun).1 (.inl ⟨_, hread⟩)⟩

/-- The app with string resources in Latin-1. -/
def latinWorkspace : Workspace where
  tree := (shortTree "").overwrite ["strings.xml"]
    ⟨"<resources>Caf".toUTF8.data ++ #[0xe9] ++ "</resources>\n".toUTF8.data⟩

/-- A library without params is linked completely into an app with string resources in Latin-1, and unlinking it fails. -/
theorem unregister_register_latin :
    WellNamed [] ∧ FourFiles latinWorkspace.tree shortApp ∧
      HoldsNoEntry latinWorkspace.tree shortApp.strings (camelCase "foo") ∧
      IsFresh latinWorkspace "foo" (fooLibrary "new Foo()") [] shortApp ∧
      ∃ w', (register "foo" (fooLibrary "new Foo()") [] shortApp).run latinWorkspace = (.ok [], w') ∧
        (∃ f, (unregister "foo" (fooLibrary "new Foo()") shortApp).run w' = (.error f, w')) ∧
        w'.tree.readText shortApp.buildGradle ≠ latinWorkspace.tree.readText shortApp.buildGradle := by
  have hread : latinWorkspace.tree.readText shortApp.strings =
      .error (.undecodable ⟨0xe9, 14, 14, .badContinuation⟩) := by decide +kernel
  have hnone : HoldsNoEntry latinWorkspace.tree shortApp.strings (camelCase "foo") := fun content hcontent => by
    cases hread.symm.trans hcontent
  have hfresh : IsFresh latinWorkspace "foo" (fooLibrary "new Foo()") [] shortApp := by decide +kernel
  have hok : ((register "foo" (fooLibrary "new Foo()") [] shortApp).run latinWorkspace).1 = .ok [] := by decide +kernel
  have hrun := Attempt.run_eq_of_fst hok
  obtain ⟨ps, -, hturns⟩ := turns_of_run_register hfresh hrun
  have htext : ¬latinWorkspace.tree.IsTextOrMissing shortApp.strings := by
    rintro (⟨content, hcontent⟩ | ⟨q, hmissing⟩)
    · cases hread.symm.trans hcontent
    · cases hread.symm.trans hmissing
  have hfault := exists_run_unregister_eq_error "foo" (fooLibrary "new Foo()") (mt hturns.isTextOrMissing_iff.mp htext)
  exact ⟨⟨by simp, by decide⟩, by decide +kernel, hnone, hfresh, _, hrun, hfault, by decide +kernel⟩

end Android
end ModuleLink
