import ModuleLink.Ios.Registration
import ModuleLink.Proofs.Xcode.Editing

/-!
What linking a library adds to a project file.  Whatever it adds can be written, and none of it is another group of the
name that the library's project is looked for under.
-/

namespace ModuleLink
namespace Ios

open Plist Xcode Editing Attempt

/-! ## Names -/

/-- A text that can stand as a value and as a comment. -/
structure IsTitle (s : String) : Prop where
  nonempty : s ≠ ""
  quotable : IsQuotable s
  comment : IsComment s

/-- The name of a file. -/
structure IsFileName (s : String) : Prop where
  nonempty : s ≠ ""
  slash : '/' ∉ s.toList
  trimmed : Text.trim s.toList = s.toList

theorem IsFileName.isTitle {s : String} (h : IsFileName s) : IsTitle s where
  nonempty := h.nonempty
  quotable _ hin := h.slash (hin.subset (by simp))
  comment := ⟨h.trimmed, fun hin => h.slash (hin.subset (by simp))⟩

/-- What stands in two texts that follow each other stands in the first one, or ends in the second one. -/
theorem infix_or_mem_of_append {x s t : List Char} {c : Char} (h : x ++ [c] <:+: s ++ t) : x ++ [c] <:+: s ∨ c ∈ t := by
  obtain ⟨a, b, hab⟩ := h
  rcases List.append_eq_append_iff.mp hab with ⟨z, rfl, -⟩ | ⟨z, hz, rfl⟩
  · exact .inl ⟨a, z, rfl⟩
  · cases z using List.reverseRecOn with
    | nil =>
      rw [List.append_nil] at hz
      exact .inl ⟨a, [], by rw [hz, List.append_nil]⟩
    | append_singleton z d =>
      have hlast := congrArg List.getLast? hz
      rw [← List.append_assoc, ← List.append_assoc, List.getLast?_concat, List.getLast?_concat] at hlast
      obtain rfl := Option.some.inj hlast
      exact .inr (by simp)

/-- Behind a text without two slashes in a row a file name can stand. -/
theorem IsFileName.quotable_append {s p : String} (h : IsFileName s) (hp : ¬['/', '/'] <:+: p.toList) :
    IsQuotable (p ++ s) := by
  intro _ hin
  rw [String.toList_append] at hin
  rcases infix_or_mem_of_append (x := ['/']) hin with hin | hin
  · exact hp hin
  · exact h.slash hin

/-- The name of a file as an entry of a build phase. -/
def entryName (name : String) : String := name ++ " in Frameworks"

theorem IsTitle.entryName {s : String} (h : IsTitle s) : IsComment (entryName s) := by
  have hlist : (Ios.entryName s).toList = s.toList ++ " in Frameworks".toList := String.toList_append
  have hne : s.toList ≠ [] := fun e => h.nonempty (String.toList_inj.mp (by rw [e]; rfl))
  refine ⟨?_, fun hin => ?_⟩
  · have htrimmed := (Text.trim_eq_self_iff.mp h.comment.trimmed).1
    rw [hlist, Text.trim_eq_self_iff, List.head?_append_of_ne_nil _ hne, List.getLast?_append]
    have hlast : " in Frameworks".toList.getLast? = some 's' := by decide
    refine ⟨htrimmed, ?_⟩
    rw [hlast]
    exact (by decide : Option.any Text.isBlank (some 's') = false)
  · rw [hlist] at hin
    rcases infix_or_mem_of_append (x := ['*']) hin with hin | hin
    · exact h.comment.staysOpen hin
    · exact absurd hin (by decide)

theorem isQuotable_of_slash {s : String} (h : '/' ∉ s.toList) : IsQuotable s := fun _ hin => h (hin.subset (by simp))

theorem isQuotable_of_notBare {s : String} {c : Char} (hc : c ∈ s.toList) (hbare : isBare c = false) : IsQuotable s := by
  intro hall
  rw [List.all_eq_true.mp hall c hc] at hbare
  contradiction

/-! ## Objects that are made -/

theorem isKindName_of_word {isa : String} (hne : isa.toList ≠ []) (h : isa.toList.all Text.isWord = true) :
    IsKindName isa := ⟨hne, List.all_eq_true.mp h⟩

variable {fits : Option String → Bool} {P : Graph → Prop} {A : Change → Prop} {g g' : Graph} {group : Object}

/-- What can be written under names of fields. -/
theorem isProper_fields {fields : List (String × Draft)} (hkeys : ∀ f ∈ fields, f.1 ≠ "isa" ∧ '/' ∉ f.1.toList)
    (hvalues : ∀ f ∈ fields, f.2.IsProper) : ∀ f ∈ fields, f.1 ≠ "isa" ∧ IsQuotable f.1 ∧ f.2.IsProper :=
  fun f hf => ⟨(hkeys f hf).1, isQuotable_of_slash (hkeys f hf).2, hvalues f hf⟩

theorem groupChange_isProper {name : GroupName} (h : name.IsProper) : (groupChange name).IsProper := by
  refine ⟨isKindName_of_word (by decide) (by decide), isProper_fields ?_ ?_, fun c hc => ?_⟩
  · simp only [List.forall_mem_cons]
    exact ⟨by decide, by decide, by decide, by simp⟩
  · simp only [List.forall_mem_cons]
    exact ⟨.list (by simp), h.draft, .text (isQuotable_of_slash (by decide)), by simp⟩
  · obtain rfl := Option.some.inj hc
    exact h.shown

/-- A group is found, or made and put into the main group. -/
theorem keeps_ensureGroup {name : GroupName} (hP : Stable A P) (hname : name.IsProper)
    (hmade : (∀ g, P g → ∃ group, g.findGroup name.fits = .ok (some group)) ∨ A (groupChange name))
    (happend : ∀ owner ref, A (.appendRef owner "children" ref (some name.shown))) : Keeps P (ensureGroup name) := by
  refine Gives.keeps (Q := fun _ => True) ?_
  refine Gives.bind (Q := fun found => found = none → A (groupChange name)) (gives_ask fun g found hg hfound hnone => ?_)
    fun found hfound => ?_
  · rcases hmade with hthere | hA
    · obtain ⟨group, hgroup⟩ := hthere g hg
      rw [hgroup, hnone] at hfound
      exact absurd (Except.ok.inj hfound) (by simp)
    · exact hA
  · cases found with
    | some group => exact gives_pure trivial
    | none =>
      refine (keeps_ask _).gives.bind fun main _ => ?_
      cases main with
      | none => exact gives_pure trivial
      | some main =>
        have hproper := groupChange_isProper hname
        refine (gives_add hproper fun g hg => hP.apply g _ hg hproper (hfound rfl)).bind fun group hgroup => ?_
        refine Gives.bind (Q := fun _ => True) (Keeps.gives (keeps_append fun g hg => hP.apply g _ hg ?_ (happend _ _)))
          fun _ _ => gives_pure trivial
        refine ⟨by decide, isQuotable_of_slash (by decide), hgroup.1.id, fun c hc => ?_⟩
        obtain rfl := Option.some.inj hc
        exact hname.shown

theorem buildFileChange_isProper {file name : String} (seed : String) (hfile : IsPlain file) (hname : IsTitle name) :
    (Change.add "PBXBuildFile" [("fileRef", .written ⟨file, some name⟩)] (some (entryName name)) seed).IsProper := by
  refine ⟨isKindName_of_word (by decide) (by decide), isProper_fields ?_ ?_, fun c hc => ?_⟩
  · simp only [List.forall_mem_cons]
    exact ⟨by decide, by simp⟩
  · simp only [List.forall_mem_cons]
    refine ⟨.written (hfile.isWritten fun c hc => ?_), by simp⟩
    obtain rfl := Option.some.inj hc
    exact hname.comment
  · obtain rfl := Option.some.inj hc
    exact hname.entryName

theorem keeps_addBuildFile {file name : String} (hP : Stable (Change.IsAdding fits) P) (hfile : IsPlain file)
    (hname : IsTitle name) (phase seed : String) : Keeps P (addBuildFile phase file name seed) := by
  have hproper := buildFileChange_isProper seed hfile hname
  refine Gives.keeps (Q := fun _ => True) ?_
  refine (gives_add hproper fun g hg => hP.apply g _ hg hproper (isAdding_of_ne hproper (by decide))).bind
    fun buildFile hbuildFile => ?_
  refine Gives.bind (Q := fun _ => True) (Keeps.gives (keeps_append fun g hg => hP.apply g _ hg ?_ (show "files" ∉ Object.faceKeys by decide)))
    fun _ _ => gives_pure trivial
  refine ⟨by decide, isQuotable_of_slash (by decide), hbuildFile.1.id, fun c hc => ?_⟩
  obtain rfl := Option.some.inj hc
  exact hname.entryName

/-- A reference to a file whose fields are texts. -/
theorem fileChange_isProper (fields : List (String × String)) (seed : String) {name : String}
    (hkeys : ∀ f ∈ fields, f.1 ≠ "isa" ∧ '/' ∉ f.1.toList) (hvalues : ∀ f ∈ fields, IsQuotable f.2)
    (hname : IsComment name) :
    (Change.add "PBXFileReference" (fields.map fun f => (f.1, .text f.2)) (some name) seed).IsProper := by
  refine ⟨isKindName_of_word (by decide) (by decide), isProper_fields ?_ ?_, fun c hc => ?_⟩
  · intro f hf
    obtain ⟨x, hx, rfl⟩ := List.mem_map.mp hf
    exact hkeys x hx
  · intro f hf
    obtain ⟨x, hx, rfl⟩ := List.mem_map.mp hf
    exact .text (hvalues x hx)
  · obtain rfl := Option.some.inj hc
    exact hname

theorem productChange_isProper {product : String} (seed : String) (hproduct : IsFileName product) :
    (Change.add "PBXFileReference"
      [("explicitFileType", .text "archive.ar"), ("includeInIndex", .text "0"), ("path", .text product),
        ("sourceTree", .text "BUILT_PRODUCTS_DIR")] (some product) seed).IsProper := by
  refine fileChange_isProper [("explicitFileType", "archive.ar"), ("includeInIndex", "0"), ("path", product),
    ("sourceTree", "BUILT_PRODUCTS_DIR")] seed ?_ ?_ hproduct.isTitle.comment
  · simp only [List.forall_mem_cons]
    exact ⟨by decide, by decide, by decide, by decide, by simp⟩
  · simp only [List.forall_mem_cons]
    exact ⟨isQuotable_of_slash (by decide), isQuotable_of_slash (by decide), hproduct.isTitle.quotable,
      isQuotable_of_slash (by decide), by simp⟩

theorem systemChange_isProper {library : String} (seed : String) (hlibrary : IsFileName library) :
    (Change.add "PBXFileReference" ((systemLibraryFields library).map fun f => (f.1, .text f.2)) (some library)
      seed).IsProper := by
  refine fileChange_isProper (systemLibraryFields library) seed ?_ ?_ hlibrary.isTitle.comment
  · rw [systemLibraryFields]
    split
    all_goals
      simp only [List.forall_mem_cons]
      exact ⟨by decide, by decide, by decide, by decide, by simp⟩
  · rw [systemLibraryFields]
    split
    all_goals
      simp only [List.forall_mem_cons]
      exact ⟨isQuotable_of_slash (by decide), hlibrary.isTitle.quotable,
        hlibrary.quotable_append (by decide), isQuotable_of_slash (by decide), by simp⟩

theorem isFileName_frameworks : IsFileName "Frameworks" := ⟨by decide, by decide, by decide⟩

/-- The search path of headers goes out from a variable, so it is always quoted. -/
theorem isQuotable_headerSearchPath {here sourceDir : Path} {headers : List Path} {path : String}
    (h : headerSearchPath here sourceDir headers = .ok path) : IsQuotable path := by
  have hroot : '(' ∈ "$(SRCROOT)/".toList := by decide
  have hunder (place : Path) : '(' ∈ (underSourceRoot here place sourceDir).toList := by
    rw [underSourceRoot, String.toList_append]
    exact List.mem_append_left _ hroot
  rw [headerSearchPath] at h
  split at h
  · rw [← Except.ok.inj h]
    exact isQuotable_of_notBare (hunder _) (by decide)
  · obtain ⟨folder, -, h⟩ := ok_of_bind h
    rw [← Except.ok.inj h]
    exact isQuotable_of_notBare (by rw [String.toList_append]; exact List.mem_append_left _ (hunder _)) (by decide)

/-! ## Static libraries -/

section Additions

variable (hP : Stable (Change.IsAdding fits) P)

include hP

theorem gives_productReference (product : String) :
    Gives P (fun file => ∀ o, file = some o → o.IsProper) (productReference product) := by
  refine gives_ask fun g file hg hfile o ho => ?_
  obtain ⟨refs, hrefs, hfile⟩ := ok_of_bind hfile
  rw [← Except.ok.inj hfile] at ho
  obtain ⟨id, -, hget⟩ := exists_of_mapM hrefs o (List.mem_of_find?_eq_some ho)
  split at hget
  next p hp =>
    rw [← Except.ok.inj hget]
    exact hP.proper g hg p (Graph.get?_mem hp).1
  · contradiction

theorem keeps_addProduct {product : String} (hproduct : IsFileName product) (library : String) (target : Object)
    (phase : Option Object) : Keeps P (addProduct library target phase product) := by
  cases phase with
  | none => exact keeps_pure _
  | some phase =>
    have hproper := productChange_isProper (productSeed library product) hproduct
    have hlist : ∀ file : Object, file.IsProper → Gives P (fun _ => True) (do
        if !(← get).contains (Digest.stableId (buildSeed library product target.id)) then
          addBuildFile phase.id file.id product (buildSeed library product target.id)
        return [] : Editing (List String)) := by
      refine fun file hfile => keeps_get.gives.bind fun g _ => ?_
      split
      · exact (keeps_addBuildFile hP hfile.id hproduct.isTitle _ _).gives.bind fun _ _ => gives_pure trivial
      · exact gives_pure trivial
    refine Gives.keeps (Q := fun _ => True) ((gives_productReference hP product).bind fun found hfound => ?_)
    cases found with
    | some file => exact (gives_pure (hfound file rfl)).bind hlist
    | none =>
      refine (gives_add hproper fun g hg => hP.apply g _ hg hproper (isAdding_of_ne hproper (by decide))).bind ?_
      exact fun file hfile => hlist file hfile.1

/-- Linking products only adds. -/
theorem keeps_addStaticLibraries {products : List String} (hproducts : ∀ p ∈ products, IsFileName p) (library : String) :
    Keeps P (addStaticLibraries library products) := by
  refine (keeps_ask _).bind fun targets => (keeps_mapM fun target _ => ?_).bind fun _ => keeps_pure _
  refine keeps_get.bind fun g => (keeps_mapM fun product hproduct => ?_).bind fun _ => keeps_pure _
  exact keeps_addProduct hP (hproducts product (List.mem_filter.mp hproduct).1) library target _

/-! ## System libraries -/

/-- Linking system libraries only adds, where the group for them is there or is not the one that is looked for. -/
theorem keeps_addSystemLibraries {libraries : List String} (hlibraries : ∀ l ∈ libraries, IsFileName l)
    (hgroup : (∀ g, P g → ∃ group, g.findGroup frameworksGroup.fits = .ok (some group)) ∨
      (groupChange frameworksGroup).IsAdding fits) : Keeps P (addSystemLibraries libraries) := by
  have hframeworks : frameworksGroup.IsProper :=
    ⟨.text (isQuotable_of_slash (by decide)), isFileName_frameworks.isTitle.comment⟩
  refine (keeps_ask _).bind fun targets => ?_
  cases targets with
  | nil => exact keeps_pure _
  | cons target targets =>
    refine keeps_get.bind fun g => (keeps_forIn (fun library hlibrary _ => ?_) _).bind fun _ => keeps_pure _
    have hname := hlibraries library hlibrary
    refine (keeps_ask _).bind fun there => ?_
    split
    · refine (keeps_ensureGroup hP hframeworks hgroup fun owner ref =>
        (show "children" ∉ Object.faceKeys by decide)).bind fun group => ?_
      have hproper := systemChange_isProper (systemSeed library) hname
      refine Gives.keeps (Q := fun _ => True) ?_
      refine (gives_add hproper fun g hg => hP.apply g _ hg hproper (isAdding_of_ne hproper (by decide))).bind
        fun file hfile => Keeps.gives ?_
      rcases group with _ | group
      on_goal 2 =>
        refine Keeps.bind (keeps_append fun g hg => hP.apply g _ hg ?_
          (show "children" ∉ Object.faceKeys by decide)) fun _ => ?_
        · refine ⟨by decide, isQuotable_of_slash (by decide), hfile.1.id, fun c hc => ?_⟩
          obtain rfl := Option.some.inj hc
          exact hname.isTitle.comment
      all_goals
        split
        · exact (keeps_addBuildFile hP hfile.1.id hname.isTitle _ _).bind fun _ => keeps_pure _
        · exact keeps_pure _
    · exact keeps_pure _

/-! ## Header search paths -/

/-- Search paths are only added. -/
theorem keeps_addHeaderSettings (here sourceDir : Path) (headers : List Path) :
    Keeps P (changeHeaderSettings headers (headerSearchPath here sourceDir headers)
      fun g configuration setting path => g.addSetting configuration setting path Graph.inheritedValue) := by
  rw [changeHeaderSettings]
  split
  · refine Gives.keeps (Q := fun _ => True) ?_
    refine Gives.bind (Q := fun path => IsQuotable path)
      (fun g hg => ⟨hg, fun path hpath => isQuotable_headerSearchPath hpath⟩) fun path hpath => ?_
    refine Keeps.gives ((keeps_ask _).bind fun configurations => ?_)
    refine (keeps_forIn (fun configuration _ _ => Keeps.bind ?_ fun _ => keeps_pure _) _).bind fun _ => keeps_pure _
    intro g hg
    refine hP.apply g (.addSetting configuration.id headerSetting path Graph.inheritedValue) hg ?_ trivial
    exact ⟨isQuotable_of_slash (by decide), hpath, isQuotable_of_notBare (c := '(') (by decide) (by decide)⟩
  · exact keeps_pure _

end Additions

end Ios
end ModuleLink
