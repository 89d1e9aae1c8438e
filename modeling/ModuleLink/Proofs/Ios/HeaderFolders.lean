import Mathlib
import ModuleLink.Ios.Headers
import ModuleLink.Proofs.Path
import ModuleLink.Proofs.Text.Occurrences

/-!
The folder that a search path for headers names.  It is the lowest one that holds the folders of all headers, and
everything below it is searched exactly if the headers lie in different folders.
-/

namespace ModuleLink

namespace Ios

open Text

/-! ## Reading a search path -/

/-- A search path that goes on to everything below its folder. -/
def searchesBelow (path : String) : Bool := endsWith "/**".toList path.toList

/-- The folder that a search path names, seen from the folder of the project. -/
def searchFolder? (here sourceDir : Path) (path : String) : Option Path :=
  (after? "$(SRCROOT)/".toList path.toList).map fun way =>
    let way := if endsWith "/**".toList way then way.take (way.length - "/**".length) else way
    Path.normal here (sourceDir / String.ofList way)

section

variable {here place sourceDir folder : Path} {t u a way : List Char} {headers folders : List Path}

/-- The end of a text from its last slash on. -/
theorem eq_of_endsWith_segment (ht : '/' ∉ t) (hu : '/' ∉ u) (h : endsWith ('/' :: u) (a ++ '/' :: t) = true) :
    t = u := by
  obtain ⟨b, hb⟩ := endsWith_iff.mp h
  exact (append_cons_inj_right hb ht hu).2

/-- The way to a place ends with a step that stays or goes up, or with a name of the place. -/
theorem exists_last_step (hplace : place.IsNormal) (hsource : sourceDir.IsNormal) (here : Path) :
    ∃ front last, '/' :: (Path.relative here place sourceDir).toString.toList = front ++ '/' :: String.toList last ∧
      '/' ∉ last.toList ∧ (last = "." ∨ last = ".." ∨ last ∈ place.parts) := by
  obtain ⟨shared, up, down, hdown, -, hrelative⟩ := Path.exists_relative hplace hsource here
  have hsteps := Path.isStep_relative hplace hsource here
  rw [hrelative] at hsteps ⊢
  cases hparts : up.map (fun _ => "..") ++ down using List.reverseRecOn with
  | nil => exact ⟨[], ".", by decide, by decide, .inl rfl⟩
  | append_singleton steps last =>
    have hlast : last ∈ up.map (fun _ => "..") ++ down := by rw [hparts]; simp
    refine ⟨Path.slashed steps, last, ?_, (hsteps last hlast).slashFree, .inr ?_⟩
    · have hslashed : Path.slashed (steps ++ [last]) = _ := Path.slashed_eq (by simp)
      rw [Path.slashed_append, Path.slashed_cons, Path.slashed_nil, List.append_nil] at hslashed
      rw [hslashed]
      simp [Path.toString]
    · rcases List.mem_append.mp hlast with hin | hin
      · obtain ⟨_, -, rfl⟩ := List.mem_map.mp hin
        exact .inl rfl
      · exact .inr (hdown ▸ List.mem_append_right _ hin)

theorem toList_underSourceRoot (here place sourceDir : Path) : (underSourceRoot here place sourceDir).toList =
    "$(SRCROOT)/".toList ++ (Path.relative here place sourceDir).toString.toList := String.toList_append

/-- The way to a folder is no search below it, unless the folder is named like one. -/
theorem not_searchesBelow (hplace : place.IsNormal) (hsource : sourceDir.IsNormal) (hstars : "**" ∉ place.parts)
    (here : Path) : searchesBelow (underSourceRoot here place sourceDir) = false := by
  obtain ⟨front, last, hway, hslash, hlast⟩ := exists_last_step hplace hsource here
  have htext : (underSourceRoot here place sourceDir).toList = "$(SRCROOT)".toList ++ front ++ '/' :: last.toList := by
    have hroot : "$(SRCROOT)/".toList = "$(SRCROOT)".toList ++ ['/'] := by decide
    rw [toList_underSourceRoot, hroot, List.append_assoc, List.append_assoc, ← hway]
    rfl
  by_contra hbelow
  rw [Bool.not_eq_false, searchesBelow, htext] at hbelow
  have hstar := eq_of_endsWith_segment (u := ['*', '*']) hslash (by decide) hbelow
  obtain rfl : last = "**" := String.toList_inj.mp hstar
  rcases hlast with hlast | hlast | hlast
  · exact absurd hlast (by decide)
  · exact absurd hlast (by decide)
  · exact hstars hlast

theorem searchFolder?_underSourceRoot (hplace : place.IsNormal) (hsource : sourceDir.IsNormal)
    (hbelow : searchesBelow (underSourceRoot here place sourceDir) = false) :
    searchFolder? here sourceDir (underSourceRoot here place sourceDir) = some ⟨sourceDir.root, place.parts⟩ := by
  have hway : endsWith "/**".toList (Path.relative here place sourceDir).toString.toList = false := by
    by_contra hends
    obtain ⟨b, hb⟩ := endsWith_iff.mp (Bool.not_eq_false _ ▸ hends)
    have hends : searchesBelow (underSourceRoot here place sourceDir) = true := by
      rw [searchesBelow, toList_underSourceRoot, hb, endsWith_iff]
      exact ⟨"$(SRCROOT)/".toList ++ b, (List.append_assoc ..).symm⟩
    exact absurd (hbelow.symm.trans hends) Bool.false_ne_true
  rw [searchFolder?, toList_underSourceRoot, after?_append, Option.map_some, hway]
  simp only [Bool.false_eq_true, if_false, String.ofList_toList]
  rw [Path.normal_div_relative hplace hsource]

/-- The mark of a search below a folder is no part of the way to it. -/
theorem searchFolder?_below (hplace : place.IsNormal) (hsource : sourceDir.IsNormal) (here : Path) :
    searchFolder? here sourceDir (underSourceRoot here place sourceDir ++ "/**") =
      some ⟨sourceDir.root, place.parts⟩ := by
  have hends (way : List Char) : endsWith "/**".toList (way ++ "/**".toList) = true := endsWith_iff.mpr ⟨way, rfl⟩
  have hlen : "/**".length = "/**".toList.length := by decide
  rw [searchFolder?, String.toList_append, toList_underSourceRoot, List.append_assoc, after?_append, Option.map_some,
    hends, hlen]
  simp only [if_true, List.length_append, Nat.add_sub_cancel, List.take_left', String.ofList_toList]
  rw [Path.normal_div_relative hplace hsource]

/-! ## Covering headers -/

/-- Folders that are all the same come to one, and others do not. -/
theorem eraseDups_eq_singleton_iff : folders.eraseDups = [folder] ↔ folders ≠ [] ∧ ∀ f ∈ folders, f = folder := by
  constructor
  · intro h
    have hmem (f : Path) : f ∈ folders ↔ f = folder := by rw [← List.mem_eraseDups, h, List.mem_singleton]
    exact ⟨List.ne_nil_of_mem ((hmem folder).mpr rfl), fun f hf => (hmem f).mp hf⟩
  · rintro ⟨hne, hall⟩
    cases folders with
    | nil => contradiction
    | cons f rest =>
      rw [List.forall_mem_cons] at hall
      obtain ⟨rfl, hrest⟩ := hall
      rw [List.eraseDups_cons, List.filter_eq_nil_iff.mpr fun g hg => by rw [hrest g hg]; simp, List.eraseDups_nil]

theorem headerSearchPath_of_single (here sourceDir : Path) (h : (headers.map Path.parent).eraseDups = [folder]) :
    headerSearchPath here sourceDir headers = .ok (underSourceRoot here folder sourceDir) := by
  rw [headerSearchPath, h]
  rfl

theorem headerSearchPath_of_common (here sourceDir : Path) (hmany : ∀ f, (headers.map Path.parent).eraseDups ≠ [f])
    (hcommon : Path.common (headers.map Path.parent).eraseDups = .ok folder) :
    headerSearchPath here sourceDir headers = .ok (underSourceRoot here folder sourceDir ++ "/**") := by
  rw [headerSearchPath]
  split
  next f hf => exact absurd hf (hmany f)
  · rw [hcommon]
    rfl

/-- The names start those of all folders of headers, and so does whatever starts these names only. -/
def IsLowest (names : List String) (headers : List Path) : Prop :=
  ∀ l, l <+: names ↔ ∀ h ∈ headers, l <+: h.parent.parts

theorem IsLowest.isNormal {names : List String} (h : IsLowest names headers) (hheaders : ∀ h ∈ headers, h.IsNormal)
    (hne : headers ≠ []) : (⟨"/", names⟩ : Path).IsNormal := by
  obtain ⟨h₀, hh₀⟩ := List.exists_mem_of_ne_nil headers hne
  have hfront := (h names).mp List.prefix_rfl h₀ hh₀
  exact ⟨rfl, fun s hs => (hheaders h₀ hh₀).parent.names s (hfront.subset hs)⟩

theorem isLowest_of_single (hne : headers ≠ []) (hall : ∀ h ∈ headers, h.parent = folder) :
    IsLowest folder.parts headers := by
  intro l
  constructor
  · intro hl h hh
    rwa [hall h hh]
  · intro hl
    obtain ⟨h₀, hh₀⟩ := List.exists_mem_of_ne_nil headers hne
    rw [← hall h₀ hh₀]
    exact hl h₀ hh₀

theorem exists_common_parents (hheaders : ∀ h ∈ headers, h.IsNormal) (hne : headers ≠ []) :
    ∃ names, Path.common (headers.map Path.parent).eraseDups = .ok ⟨"/", names⟩ ∧ IsLowest names headers := by
  have hmem (f : Path) : f ∈ (headers.map Path.parent).eraseDups ↔ ∃ h ∈ headers, h.parent = f := by
    rw [List.mem_eraseDups, List.mem_map]
  have hsome : (headers.map Path.parent).eraseDups ≠ [] := by
    obtain ⟨h₀, hh₀⟩ := List.exists_mem_of_ne_nil headers hne
    exact List.ne_nil_of_mem ((hmem _).mpr ⟨h₀, hh₀, rfl⟩)
  have habsolute : ∀ f ∈ (headers.map Path.parent).eraseDups, f.isAbsolute = true := by
    intro f hf
    obtain ⟨h, hh, rfl⟩ := (hmem f).mp hf
    exact (hheaders h hh).parent.isAbsolute
  obtain ⟨names, hcommon, hnames⟩ := Path.exists_common hsome habsolute
  refine ⟨names, hcommon, fun l => ?_⟩
  rw [hnames]
  constructor
  · exact fun hl h hh => hl _ ((hmem _).mpr ⟨h, hh, rfl⟩)
  · intro hl f hf
    obtain ⟨h, hh, rfl⟩ := (hmem f).mp hf
    exact hl h hh

/-- There is a search path, it names the lowest folder, and it goes on below exactly if there are different folders. -/
theorem exists_headerSearchPath (here : Path) (hsource : sourceDir.IsNormal) (hheaders : ∀ h ∈ headers, h.IsNormal)
    (hne : headers ≠ []) (hstars : ∀ h ∈ headers, "**" ∉ h.parent.parts) :
    ∃ path names, headerSearchPath here sourceDir headers = .ok path ∧
      searchFolder? here sourceDir path = some ⟨sourceDir.root, names⟩ ∧ IsLowest names headers ∧
      (searchesBelow path = true ↔ ∃ h ∈ headers, ∃ h' ∈ headers, h.parent ≠ h'.parent) := by
  obtain ⟨h₀, hh₀⟩ := List.exists_mem_of_ne_nil headers hne
  by_cases hsame : ∀ h ∈ headers, h.parent = h₀.parent
  · have hsingle : (headers.map Path.parent).eraseDups = [h₀.parent] := by
      refine eraseDups_eq_singleton_iff.mpr ⟨fun e => hne (List.map_eq_nil_iff.mp e), fun f hf => ?_⟩
      obtain ⟨h, hh, rfl⟩ := List.mem_map.mp hf
      exact hsame h hh
    have hplace := (hheaders h₀ hh₀).parent
    have hbelow := not_searchesBelow hplace hsource (hstars h₀ hh₀) here
    refine ⟨_, _, headerSearchPath_of_single here sourceDir hsingle, searchFolder?_underSourceRoot hplace hsource hbelow,
      isLowest_of_single hne hsame, ?_⟩
    rw [hbelow]
    constructor
    · exact fun hfalse => absurd hfalse Bool.false_ne_true
    · rintro ⟨h, hh, h', hh', hother⟩
      exact absurd ((hsame h hh).trans (hsame h' hh').symm) hother
  · have hmany (f : Path) : (headers.map Path.parent).eraseDups ≠ [f] := by
      intro hf
      have hall := (eraseDups_eq_singleton_iff.mp hf).2
      exact hsame fun h hh =>
        (hall _ (List.mem_map_of_mem hh)).trans (hall _ (List.mem_map_of_mem hh₀)).symm
    obtain ⟨names, hcommon, hlowest⟩ := exists_common_parents hheaders hne
    have hplace := hlowest.isNormal hheaders hne
    have hbelow : searchesBelow (underSourceRoot here ⟨"/", names⟩ sourceDir ++ "/**") = true :=
      endsWith_iff.mpr ⟨_, String.toList_append⟩
    refine ⟨_, names, headerSearchPath_of_common here sourceDir hmany hcommon,
      searchFolder?_below hplace hsource here, hlowest, fun _ => ?_, fun _ => hbelow⟩
    push Not at hsame
    obtain ⟨h, hh, hother⟩ := hsame
    exact ⟨h, hh, h₀, hh₀, hother⟩

/-- The search path for headers names the lowest folder that holds the folders of all of them, and goes on to everything
below exactly if they lie in different folders. -/
theorem headerSearchPath_covers (here : Path) (hsource : sourceDir.IsNormal) (hheaders : ∀ h ∈ headers, h.IsNormal)
    (hne : headers ≠ []) (hstars : ∀ h ∈ headers, "**" ∉ h.parent.parts) :
    ∃ path folder, headerSearchPath here sourceDir headers = .ok path ∧
      searchFolder? here sourceDir path = some folder ∧ folder.root = sourceDir.root ∧
      (∀ h ∈ headers, folder.IsAbove h.parent) ∧
      (∀ below : Path, folder.IsAbove below → below.parts ≠ folder.parts → ∃ h ∈ headers, ¬below.IsAbove h.parent) ∧
      (searchesBelow path = true ↔ ∃ h ∈ headers, ∃ h' ∈ headers, h.parent ≠ h'.parent) := by
  obtain ⟨path, names, hpath, hfolder, hlowest, hbelow⟩ := exists_headerSearchPath here hsource hheaders hne hstars
  refine ⟨path, _, hpath, hfolder, rfl, (hlowest names).mp List.prefix_rfl, fun below habove hother => ?_, hbelow⟩
  by_contra hcovers
  push Not at hcovers
  exact hother (((hlowest below.parts).mpr hcovers).eq_of_length_le habove.length_le)

/-- The headers of a package beside the project, one of them in a folder of its own. -/
def packageHeaders : List Path :=
  [⟨"/", ["app", "packages", "foo", "Foo.h"]⟩, ⟨"/", ["app", "packages", "foo", "Base", "Base.h"]⟩]

theorem headerSearchPath_covers_packageHeaders :
    headerSearchPath ⟨"/", []⟩ ⟨"/", ["app", "ios"]⟩ packageHeaders = .ok "$(SRCROOT)/../packages/foo/**" ∧
    ∃ path folder, headerSearchPath ⟨"/", []⟩ ⟨"/", ["app", "ios"]⟩ packageHeaders = .ok path ∧
      searchFolder? ⟨"/", []⟩ ⟨"/", ["app", "ios"]⟩ path = some folder ∧ folder.root = "/" ∧
      (∀ h ∈ packageHeaders, folder.IsAbove h.parent) ∧
      (∀ below : Path, folder.IsAbove below → below.parts ≠ folder.parts →
        ∃ h ∈ packageHeaders, ¬below.IsAbove h.parent) ∧
      (searchesBelow path = true ↔ ∃ h ∈ packageHeaders, ∃ h' ∈ packageHeaders, h.parent ≠ h'.parent) :=
  ⟨by rfl, headerSearchPath_covers ⟨"/", []⟩ (by decide) (by decide) (by decide) (by decide)⟩

end

end Ios
end ModuleLink
