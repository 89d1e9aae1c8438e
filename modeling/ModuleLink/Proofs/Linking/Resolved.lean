import Mathlib
import ModuleLink.Linking.Resolution
import ModuleLink.Proofs.Attempt

/-!
Resolving libraries by their names.  What is found for a name depends on the name alone, and a fault that is not one of a
library ends the search for all of them.
-/

namespace ModuleLink

variable {α β : Type}

/-! ## Surveys -/

namespace Survey

/-- What a survey comes to, and the notices it adds, do not depend on the notices so far. -/
def IsSteady (x : Survey α) : Prop := ∀ ns, x.run ns = ((x.run []).1, ns ++ (x.run []).2)

theorem isSteady_pure (a : α) : IsSteady (pure a : Survey α) := fun ns => by
  rw [Attempt.run_pure, Attempt.run_pure, List.append_nil]

theorem isSteady_throw (e : Fault) : IsSteady (throw e : Survey α) := fun ns => by
  rw [Attempt.run_throw, Attempt.run_throw, List.append_nil]

theorem isSteady_ofExcept (r : Except Fault α) : IsSteady (Attempt.ofExcept r : Survey α) := fun ns => by
  rw [Attempt.run_ofExcept, Attempt.run_ofExcept, List.append_nil]

theorem isSteady_warn (text : String) : IsSteady (warn text) := fun _ => rfl

theorem IsSteady.bind {x : Survey α} {f : α → Survey β} (hx : IsSteady x) (hf : ∀ a, IsSteady (f a)) :
    IsSteady (x >>= f) := by
  intro ns
  rw [Attempt.run_bind, Attempt.run_bind, hx ns]
  rcases x.run [] with ⟨e | a, added⟩
  · rfl
  · simp only
    rw [hf a (ns ++ added), hf a added, List.append_assoc]

theorem isSteady_mapM {f : α → Survey β} {xs : List α} (h : ∀ x ∈ xs, IsSteady (f x)) : IsSteady (xs.mapM f) := by
  induction xs with
  | nil => exact isSteady_pure _
  | cons x xs ih =>
    rw [List.forall_mem_cons] at h
    rw [List.mapM_cons]
    exact h.1.bind fun _ => (ih h.2).bind fun _ => isSteady_pure _

end Survey

namespace Overrides

open Survey

theorem isSteady_ofFile (t : Tree) (p : Path) : IsSteady (ofFile t p) := by
  rw [ofFile]
  split
  · exact (isSteady_warn _).bind fun _ => isSteady_pure _
  · split
    · exact isSteady_throw _
    · split
      · exact isSteady_pure _
      · exact isSteady_throw _
      · exact (isSteady_warn _).bind fun _ => isSteady_pure _

theorem isSteady_ofManifest (t : Tree) (p : Path) : IsSteady (ofManifest t p) := by
  rw [ofManifest]
  split
  · exact (isSteady_warn _).bind fun _ => isSteady_pure _
  · split
    · exact (isSteady_warn _).bind fun _ => isSteady_pure _
    · split <;> exact isSteady_pure _
    · exact isSteady_pure _

theorem isSteady_read (t : Tree) (folder : Path) : IsSteady (read t folder) := by
  refine (isSteady_ofExcept _).bind fun hasFile => ?_
  split
  · exact isSteady_ofFile t _
  refine (isSteady_ofExcept _).bind fun hasManifest => ?_
  split
  · exact isSteady_ofManifest t _
  · exact isSteady_pure _

theorem isSteady_forPlatform (settings : Table) (p : Platform) : IsSteady (forPlatform settings p) := by
  rw [forPlatform]
  split
  any_goals exact isSteady_pure _
  exact (isSteady_warn _).bind fun _ => isSteady_pure _

end Overrides

namespace Android

open Survey

theorem isSteady_libraryPackage (t : Tree) (site : Site) (settings : Table) :
    IsSteady (libraryPackage t site settings) := by
  rw [libraryPackage]
  split
  · exact isSteady_pure _
  · split
    · exact isSteady_pure _
    · exact (isSteady_ofExcept _).bind fun _ => isSteady_pure _
    · split
      · exact (isSteady_warn _).bind fun _ => isSteady_pure _
      · exact isSteady_throw _

theorem isSteady_library? (java : Java.Outline.Parser) (t : Tree) (folder : Path) (settings : Table) :
    IsSteady (library? t folder settings java) := by
  refine (isSteady_ofExcept _).bind fun site? => ?_
  split
  · exact isSteady_pure _
  refine (isSteady_libraryPackage t _ settings).bind fun packageName? => ?_
  split
  · exact isSteady_pure _
  refine (isSteady_ofExcept _).bind fun found => ?_
  split <;> exact isSteady_pure _

end Android

namespace Linking

open Survey

/-! ## One library -/

variable (java : Java.Outline.Parser) (t : Tree) (root : Path) (platforms : List Platform) (name : String)

theorem isSteady_sidesUnder {F : Platform → Type} (settings : Table)
    {resolve : (p : Platform) → Table → Survey (Option (F p))} (h : ∀ p settings, IsSteady (resolve p settings)) :
    IsSteady (sidesUnder settings resolve platforms) := by
  induction platforms with
  | nil => exact isSteady_pure _
  | cons p rest ih =>
    refine IsSteady.bind ?_ fun _ => ih.bind fun _ => isSteady_pure _
    refine (Overrides.isSteady_forPlatform settings p).bind fun section? => ?_
    split
    · exact h p _
    · exact isSteady_pure _

theorem isSteady_librarySide (folder : Path) (p : Platform) (settings : Table) :
    IsSteady (librarySide java t folder p settings) := by
  cases p with
  | ios => exact isSteady_ofExcept _
  | android => exact Android.isSteady_library? java t folder settings

theorem isSteady_param? (folder : Path) (declaration : Setting) : IsSteady (param? folder declaration) := by
  have hwarn : IsSteady (do
      Survey.warn ("Ignoring malformed param " ++ declaration.display ++ " in " ++ folder.toString)
      return none : Survey (Option Param)) := (isSteady_warn _).bind fun _ => isSteady_pure _
  cases declaration with
  | table entries =>
    rw [param?]
    by_cases hname : (Table.given? entries "name").isSome = true
    · simp only [hname, if_true]
      exact (isSteady_ofExcept _).bind fun _ => isSteady_pure _
    · simp only [hname, if_false, Bool.false_eq_true]
      exact hwarn
  | _ => exact hwarn

/-- What follows once the folder of a library was found. -/
def describe (folder : Path) : Survey (Dependency LibrarySide) := do
  let settings ← Overrides.read t folder
  let sides ← sidesUnder settings (librarySide java t folder) platforms
  let params ← (← Attempt.ofExcept (declarations settings)).mapM (param? folder)
  return { name := name, folder := folder, side? := sides, params := params.reduceOption }

theorem dependency_eq : dependency t root platforms name java = (do
    if ← Attempt.ofExcept (t.isFolder (packageFolder root name)) then
      describe java t platforms name (packageFolder root name)
    else throw (.unknownLibrary name (packageFolder root name).toString)) := by
  rw [dependency]
  congr 1
  funext isFolder
  cases isFolder <;> rfl

theorem isSteady_describe (folder : Path) : IsSteady (describe java t platforms name folder) := by
  refine (Overrides.isSteady_read t folder).bind fun settings => ?_
  refine (isSteady_sidesUnder platforms settings (isSteady_librarySide java t folder)).bind fun sides => ?_
  refine (isSteady_ofExcept _).bind fun declared => ?_
  exact (isSteady_mapM fun declaration _ => isSteady_param? folder declaration).bind fun _ => isSteady_pure _

theorem isSteady_dependency : IsSteady (dependency t root platforms name java) := by
  rw [dependency_eq]
  refine (isSteady_ofExcept _).bind fun isFolder => ?_
  split
  · exact isSteady_describe java t platforms name _
  · exact isSteady_throw _

theorem gives_dependency :
    Attempt.Gives (fun _ => True) (fun d => d.name = name) (dependency t root platforms name java) := by
  rw [dependency_eq]
  refine (Attempt.gives_anything _).bind fun isFolder _ => ?_
  split
  · refine (Attempt.gives_anything _).bind fun settings _ => (Attempt.gives_anything _).bind fun sides _ => ?_
    refine (Attempt.gives_anything _).bind fun declared _ => (Attempt.gives_anything _).bind fun params _ => ?_
    exact Attempt.gives_pure rfl
  · exact fun _ _ => ⟨trivial, fun _ h => by contradiction⟩

/-- What is found for a name. -/
def found : Except Fault (Dependency LibrarySide) := ((dependency t root platforms name java).run []).1

variable {java t root platforms name}

theorem name_of_found {d : Dependency LibrarySide} (h : found java t root platforms name = .ok d) : d.name = name :=
  (gives_dependency java t root platforms name [] trivial).2 d h

/-! ## All libraries -/

/-- What is reported for some names: what was found for each of them, and what is wrong with each of the others. -/
structure Reports (found : String → Except Fault (Dependency LibrarySide)) (names : List String) (r : Resolved) :
    Prop where
  dependencies : r.dependencies = names.filterMap fun name => (found name).toOption
  failed : ∀ name f, (name, f) ∈ r.failed ↔ name ∈ names ∧ ∃ e, found name = .error e ∧ e.ofLibrary? name = some f
  nodup : (r.failed.map (·.1)).Nodup
  settled : ∀ name ∈ names, ∀ e, found name = .error e → (e.ofLibrary? name).isSome = true

section

variable {found : String → Except Fault (Dependency LibrarySide)} {names : List String} {r : Resolved} {name : String}

theorem Reports.loaded (h : Reports found names r) {d : Dependency LibrarySide} (hfound : found name = .ok d) :
    Reports found (name :: names) { r with dependencies := d :: r.dependencies } where
  dependencies := by
    rw [List.filterMap_cons, hfound, h.dependencies]
    rfl
  failed other f := by
    rw [h.failed, List.mem_cons]
    constructor
    · exact fun ⟨hother, hfailed⟩ => ⟨.inr hother, hfailed⟩
    · rintro ⟨rfl | hother, e, he, hf⟩
      · rw [hfound] at he
        contradiction
      · exact ⟨hother, e, he, hf⟩
  nodup := h.nodup
  settled := List.forall_mem_cons.mpr ⟨fun e he => by rw [hfound] at he; contradiction, h.settled⟩

theorem Reports.notLoaded (h : Reports found names r) {e : Fault} {f : Fault} (hfound : found name = .error e)
    (hfault : e.ofLibrary? name = some f) :
    Reports found (name :: names) { r with failed := (name, f) :: r.failed.filter fun e => e.1 != name } where
  dependencies := by
    rw [List.filterMap_cons, hfound]
    exact h.dependencies
  failed other f' := by
    rw [List.mem_cons, List.mem_filter, h.failed, List.mem_cons, bne_iff_ne, Prod.mk.injEq]
    constructor
    · rintro (⟨rfl, rfl⟩ | ⟨⟨hother, hfailed⟩, -⟩)
      · exact ⟨.inl rfl, e, hfound, hfault⟩
      · exact ⟨.inr hother, hfailed⟩
    · rintro ⟨hother, e', he', hf'⟩
      by_cases hname : other = name
      · subst hname
        rw [hfound] at he'
        obtain rfl := Except.error.inj he'
        exact .inl ⟨rfl, Option.some.inj (hf'.symm.trans hfault)⟩
      · exact .inr ⟨⟨hother.resolve_left hname, e', he', hf'⟩, hname⟩
  nodup := by
    rw [List.map_cons, List.nodup_cons]
    refine ⟨fun hmem => ?_, h.nodup.sublist (List.filter_sublist.map _)⟩
    obtain ⟨e', he', hname⟩ := List.mem_map.mp hmem
    simpa [hname] using (List.mem_filter.mp he').2
  settled := by
    refine List.forall_mem_cons.mpr ⟨fun e' he' => ?_, h.settled⟩
    rw [hfound] at he'
    obtain rfl := Except.error.inj he'
    rw [hfault]
    rfl

/-- A name counts as failed when nothing was found for it. -/
theorem Reports.loaded_iff (h : Reports found names r) (hname : ∀ name d, found name = .ok d → d.name = name)
    (hmem : name ∈ names) : (∃ d ∈ r.dependencies, d.name = name) ↔ name ∉ r.failed.map (·.1) := by
  rw [h.dependencies]
  constructor
  · rintro ⟨d, hd, rfl⟩ hfailed
    obtain ⟨other, -, hother⟩ := List.mem_filterMap.mp hd
    obtain ⟨⟨name, f⟩, hf, heq⟩ := List.mem_map.mp hfailed
    obtain ⟨-, e, he, -⟩ := (h.failed name f).mp hf
    cases hfound : found other with
    | error e' =>
      rw [hfound] at hother
      contradiction
    | ok d' =>
      rw [hfound] at hother
      obtain rfl := Option.some.inj hother
      obtain rfl : name = d'.name := heq
      rw [hname other d' hfound, hfound] at he
      contradiction
  · intro hfailed
    cases hfound : found name with
    | ok d => exact ⟨d, List.mem_filterMap.mpr ⟨name, hmem, by rw [hfound]; rfl⟩, hname name d hfound⟩
    | error e =>
      obtain ⟨f, hf⟩ := Option.isSome_iff_exists.mp (h.settled name hmem e hfound)
      exact absurd (List.mem_map.mpr ⟨(name, f), (h.failed name f).mpr ⟨hmem, e, hfound, hf⟩, rfl⟩) hfailed

end

/-- Either every name is reported, or the search ended with a fault that is not one of a library. -/
theorem run_resolveAll (java : Java.Outline.Parser) (t : Tree) (root : Path) (platforms : List Platform)
    (names : List String) (ns : List Notice) :
    (∃ r, ((resolveAll t root platforms names java).run ns).1 = .ok r ∧ Reports (found java t root platforms) names r) ∨
      ∃ name ∈ names, ∃ e, found java t root platforms name = .error e ∧ e.ofLibrary? name = none ∧
        ((resolveAll t root platforms names java).run ns).1 = .error e := by
  induction names generalizing ns with
  | nil => exact .inl ⟨{}, rfl, rfl, by simp, by simp, by simp⟩
  | cons name rest ih =>
    have hrun : ((dependency t root platforms name java).outcome).run ns =
        (.ok (found java t root platforms name), ((dependency t root platforms name java).run ns).2) :=
      Attempt.run_outcome (by rw [isSteady_dependency java t root platforms name ns]; rfl)
    rw [resolveAll, Attempt.run_bind_ok hrun]
    generalize ((dependency t root platforms name java).run ns).2 = ns'
    cases hfound : found java t root platforms name with
    | ok d =>
      rcases ih ns' with ⟨r, hr, hreports⟩ | ⟨other, hother, e, he, hescapes, hr⟩
      · refine .inl ⟨{ r with dependencies := d :: r.dependencies }, ?_, hreports.loaded hfound⟩
        rw [Attempt.run_bind_ok (Attempt.run_eq_of_fst hr)]
        rfl
      · refine .inr ⟨other, by simp [hother], e, he, hescapes, ?_⟩
        rw [Attempt.run_bind_error (Attempt.run_eq_of_fst hr)]
    | error e =>
      cases hfault : e.ofLibrary? name with
      | none =>
        refine .inr ⟨name, by simp, e, hfound, hfault, ?_⟩
        simp only [hfault]
        rfl
      | some f =>
        simp only [hfault]
        rcases ih ns' with ⟨r, hr, hreports⟩ | ⟨other, hother, e', he', hescapes, hr⟩
        · refine .inl ⟨{ r with failed := (name, f) :: r.failed.filter fun e => e.1 != name }, ?_,
            hreports.notLoaded hfound hfault⟩
          rw [Attempt.run_bind_ok (Attempt.run_eq_of_fst hr)]
          rfl
        · refine .inr ⟨other, by simp [hother], e', he', hescapes, ?_⟩
          rw [Attempt.run_bind_error (Attempt.run_eq_of_fst hr)]

/-- The libraries of some names can be resolved exactly when no fault of one of them is of a kind that ends the run.  Then
every name is reported once, as found or as failed, and what is reported for it is what was found for it alone. -/
theorem resolveAll_isOk_iff (java : Java.Outline.Parser) (t : Tree) (root : Path) (platforms : List Platform)
    (names : List String) (ns : List Notice) :
    (((resolveAll t root platforms names java).run ns).1.isOk = true ↔
      ∀ name ∈ names, ∀ e, found java t root platforms name = .error e → (e.ofLibrary? name).isSome = true) ∧
    ∀ r, ((resolveAll t root platforms names java).run ns).1 = .ok r → Reports (found java t root platforms) names r ∧
      ∀ name ∈ names, (∃ d ∈ r.dependencies, d.name = name) ↔ name ∉ r.failed.map (·.1) := by
  have hcases := run_resolveAll java t root platforms names ns
  refine ⟨⟨fun hok => ?_, fun hall => ?_⟩, fun r hr => ?_⟩
  · rcases hcases with ⟨r, -, hreports⟩ | ⟨name, -, e, -, -, hr⟩
    · exact hreports.settled
    · rw [hr] at hok
      contradiction
  · rcases hcases with ⟨r, hr, -⟩ | ⟨name, hname, e, he, hescapes, -⟩
    · rw [hr]
      rfl
    · have hsome := hall name hname e he
      rw [hescapes] at hsome
      contradiction
  · rcases hcases with ⟨r', hr', hreports⟩ | ⟨name, -, e, -, -, hr'⟩
    · obtain rfl := Except.ok.inj (hr.symm.trans hr')
      exact ⟨hreports, fun name hname => hreports.loaded_iff (fun name d => name_of_found) hname⟩
    · rw [hr] at hr'
      contradiction

/-- Two libraries, the first with a number where a path is wanted. -/
def misfitTree : Tree where
  root := .folder [("node_modules", .folder [
    ("bad", .folder [
      ("package.json", .file "\x7b\"rnpm\": \x7b\"ios\": \x7b\"project\": 5\x7d\x7d\x7d".toUTF8)]),
    ("good", .folder [])])]
  here := ⟨"/", []⟩

/-- A setting of the wrong kind in one library ends the search for all of them. -/
theorem resolveAll_misfit :
    (found Java.Outline.ofSource misfitTree {} [.ios] "good").isOk = true ∧
      ((resolveAll misfitTree {} [.ios] ["bad", "good"]).run []).1.isOk = false := by
  constructor
  · decide +kernel
  · decide +kernel

/-- A name without a folder is reported as failed and the other one as found. -/
theorem resolveAll_isOk_iff_lost : ∃ r, ((resolveAll misfitTree {} [.ios] ["lost", "good"]).run []).1 = .ok r ∧
    Reports (found Java.Outline.ofSource misfitTree {} [.ios]) ["lost", "good"] r ∧
    ∀ name ∈ ["lost", "good"], (∃ d ∈ r.dependencies, d.name = name) ↔ name ∉ r.failed.map (·.1) := by
  have hok : ((resolveAll misfitTree {} [.ios] ["lost", "good"]).run []).1.isOk = true := by decide +kernel
  obtain ⟨r, hr⟩ := Attempt.run_eq_of_isOk hok
  have hfst := congrArg Prod.fst hr
  exact ⟨r, hfst, (resolveAll_isOk_iff Java.Outline.ofSource misfitTree {} [.ios] ["lost", "good"] []).2 r hfst⟩

end Linking
end ModuleLink
