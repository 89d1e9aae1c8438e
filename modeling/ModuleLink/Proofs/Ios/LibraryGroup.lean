import ModuleLink.Proofs.Ios.Additions

/-!
The group that the projects of linked libraries go into.  A project that was put into the group is listed there, and
stays listed whatever is added to the project file afterwards.
-/

namespace ModuleLink
namespace Ios

open Plist Xcode Editing Attempt

variable {folder projectName library path : String} {fits : Option String → Bool} {g g' g₁ g₂ : Graph}
  {group main file : Object}

/-! ## Projects in the group -/

theorem entriesFor_isEmpty_iff :
    (entriesFor group projectName).isEmpty = true ↔ ∀ s ∈ group.refScalars "children", s.comment ≠ some projectName := by
  rw [entriesFor, List.isEmpty_iff, List.map_eq_nil_iff, List.filter_eq_nil_iff]
  simp only [beq_iff_eq, ne_eq]

/-- The first group of the name lists a project. -/
def Lists (g : Graph) (fits : Option String → Bool) (projectName : String) : Prop :=
  ∃ group, g.findGroup fits = .ok (some group) ∧ ∃ s ∈ group.refScalars "children", s.comment = some projectName

/-- A project that is listed stays listed while the graph grows. -/
theorem Lists.grown (h : Lists g fits projectName) (hgrown : g.Grown fits g') : Lists g' fits projectName := by
  obtain ⟨group, hgroup, s, hs, hcomment⟩ := h
  obtain ⟨group', hgroup', hextends⟩ := hgrown.findGroup hgroup
  exact ⟨group', hgroup', s, hextends.children.subset hs, hcomment⟩

theorem run_listsProject_of_lists {libraryFolder : Setting} (h : Lists g (bearsName libraryFolder) projectName) :
    (listsProject libraryFolder projectName).run g = (.ok true, g) := by
  obtain ⟨group, hgroup, s, hs, hcomment⟩ := h
  have hfind : (findGroup (groupName libraryFolder)).run g = (.ok (some group), g) := by
    rw [findGroup, run_ask]
    exact congrArg (·, g) hgroup
  have hentries : (entriesFor group projectName).isEmpty = false := by
    rw [Bool.eq_false_iff, Ne, entriesFor_isEmpty_iff]
    exact fun hnone => hnone s hs hcomment
  rw [listsProject, run_bind_ok hfind]
  simp only [hentries]
  rfl

/-! ## The group that is made -/

/-- A new group has the name and no children. -/
theorem label?_of_groupChange {c : Option String} {seed : String} (hfolder : folder ≠ "")
    (h : g.addObject "PBXGroup" [("children", .list []), ("name", .text folder), ("sourceTree", .text "<group>")] c
      seed = .ok (g', group)) : group.label? = some folder ∧ group.refScalars "children" = [] := by
  obtain ⟨hthere, -⟩ := field?_added h (by simp)
  simp only [List.forall_mem_cons] at hthere
  obtain ⟨⟨children, hchildren, hfield⟩, ⟨name, hname, hfield'⟩, -⟩ := hthere
  obtain rfl := Except.ok.inj hchildren
  obtain rfl := Except.ok.inj hname
  have htext : group.text? "name" = some folder := by
    rw [Object.text?, hfield']
    exact congrArg some (Scalar.value_of folder none)
  have hempty : folder.isEmpty = false := by simpa using hfolder
  refine ⟨?_, ?_⟩
  · rw [Object.label?, htext]
    simp only [hempty, Bool.false_eq_true, if_false]
  · rw [Object.refScalars, hfield]
    rfl

theorem find?_eq_some_of_forall {α : Type} {p : α → Bool} {l : List α} {a : α} (hmem : a ∈ l) (hp : p a = true)
    (h : ∀ b ∈ l, p b = true → b = a) : l.find? p = some a := by
  cases hfind : l.find? p with
  | none => exact absurd hp (List.find?_eq_none.mp hfind a hmem)
  | some b => rw [h b (List.mem_of_find?_eq_some hfind) (List.find?_some hfind)]

/-- Where no group of the name was in the main group, the one that is put into it is found. -/
theorem findGroup_appendRef {comment : Option String} (hnone : g.findGroup fits = .ok none)
    (hmain : g.mainGroup = .ok (some main)) (hproper : group.IsProper) (hisa : group.isa = "PBXGroup")
    (hfits : fits group.label? = true) (hfree : g.get? group.id = none)
    (hget : ∀ id, g'.get? id = (g.get? id).or (if id = group.id then some group else none))
    (hroot : g'.root = g.root) :
    (g'.appendRef main.id "children" group.id comment).1.findGroup fits = .ok (some group) := by
  have hget_main := Graph.get?_of_mainGroup hmain
  -- No child of the main group has been one of the name.
  have hold : ∀ ref ∈ main.refs "children", ∀ c, g.get? ref = some c → ¬(c.isa == "PBXGroup" && fits c.label?) = true := by
    rw [Graph.findGroup, bind_of_ok hmain] at hnone
    have hfind := Except.ok.inj hnone
    rw [Option.bind_some, Graph.groupIn, List.find?_eq_none] at hfind
    exact fun ref href c hc => hfind c (List.mem_filterMap.mpr ⟨ref, href, hc⟩)
  have hne : group.id ≠ main.id := by
    intro e
    rw [e, hget_main] at hfree
    contradiction
  have hkept {id : String} {o : Object} (ho : g.get? id = some o) : g'.get? id = some o := by rw [hget, ho]; rfl
  have hmain' : g'.mainGroup = .ok (some main) := by
    obtain ⟨s, project, hrootObject, hproject, hbind⟩ := Graph.mainGroup_eq_some_iff.mp hmain
    obtain ⟨id, hid, hmain⟩ := Option.bind_eq_some_iff.mp hbind
    exact Graph.mainGroup_eq_some_iff.mpr ⟨s, project, by rw [hroot, hrootObject], hkept hproject, by
      rw [hid, Option.bind_some, hkept hmain]⟩
  -- The main group with the new one among its children.
  have hgrown : g'.Grown fits (g'.appendRef main.id "children" group.id comment).1 :=
    grown_of_append g' main.id "children" (by decide) group.id comment
  have hafter (id : String) := Graph.get?_appendRef "children" group.id comment (hkept hget_main) id
  obtain ⟨main'', hmain'', hextends⟩ := hgrown.mainGroup hmain'
  have hsame := (hafter main.id).symm.trans (hextends.id ▸ Graph.get?_of_mainGroup hmain'')
  rw [if_pos rfl, Option.some.injEq] at hsame
  have hrefs : group.id ∈ main''.refs "children" ∧
      ∀ ref ∈ main''.refs "children", ref = group.id ∨ ref ∈ main.refs "children" := by
    rw [← hsame]
    split
    next hthere => exact ⟨List.contains_iff_mem.mp hthere, fun ref href => .inr href⟩
    · rw [Object.refs, Object.refScalars_appendRef_self, List.map_append, List.map_singleton, hproper.id.value]
      refine ⟨by simp, fun ref href => ?_⟩
      rcases List.mem_append.mp href with href | href
      · exact .inr href
      · exact .inl (List.mem_singleton.mp href)
  refine Graph.findGroup_eq_some_iff.mpr ⟨main'', hmain'', find?_eq_some_of_forall ?_ ?_ fun c hc hcfits => ?_⟩
  · refine List.mem_filterMap.mpr ⟨group.id, hrefs.1, ?_⟩
    rw [hafter, if_neg hne, hget, hfree, if_pos rfl]
    rfl
  · rw [hisa, hfits]
    rfl
  · obtain ⟨ref, href, hcget⟩ := List.mem_filterMap.mp hc
    rw [hafter] at hcget
    by_contra hcne
    by_cases hrefmain : ref = main.id
    · rw [if_pos hrefmain, hsame, Option.some.injEq] at hcget
      rw [← hcget, hextends.isa, hextends.label] at hcfits
      rcases hrefs.2 ref href with hgroup | hin
      · exact hne (hgroup.symm.trans hrefmain)
      · exact hold ref hin main (by rw [hrefmain, hget_main]) hcfits
    · rw [if_neg hrefmain, hget] at hcget
      rcases hrefs.2 ref href with rfl | hin
      · rw [hfree, if_pos rfl] at hcget
        exact hcne (Option.some.inj hcget).symm
      · cases hold' : g.get? ref with
        | some c' =>
          rw [hold'] at hcget
          obtain rfl := Option.some.inj hcget
          exact hold ref hin _ hold' hcfits
        | none =>
          rw [hold', Option.none_or] at hcget
          split at hcget
          · exact hcne (Option.some.inj hcget).symm
          · contradiction

theorem groupName_text (folder : String) : groupName (.text folder) = ⟨bearsName (.text folder), .text folder, folder⟩ := by
  rw [groupName, draftOf]
  rfl

theorem groupName_isProper (hfolder : IsTitle folder) : (groupName (.text folder)).IsProper := by
  rw [groupName_text]
  exact ⟨.text hfolder.quotable, hfolder.comment⟩

/-- The group that is found or made is the first one of the name, and a new one is empty. -/
theorem findGroup_of_ensureGroup (hfolder : IsTitle folder)
    (h : (ensureGroup (groupName (.text folder))).run g = (.ok (some group), g₁)) :
    g₁.findGroup (bearsName (.text folder)) = .ok (some group) ∧ (g₁ = g ∨ group.refScalars "children" = []) := by
  have hproper := groupChange_isProper (groupName_isProper hfolder)
  rw [groupName_text] at h hproper
  obtain ⟨found, g', hfind, h⟩ := run_bind_eq_ok h
  rw [findGroup, run_ask, Prod.mk.injEq] at hfind
  obtain ⟨hfound, rfl⟩ := hfind
  cases found with
  | some found =>
    obtain ⟨hsame, rfl⟩ := run_pure_eq_ok h
    rw [← hsame]
    exact ⟨hfound, .inl rfl⟩
  | none =>
    obtain ⟨main, g', hmain, h⟩ := run_bind_eq_ok h
    rw [run_ask, Prod.mk.injEq] at hmain
    obtain ⟨hmain, rfl⟩ := hmain
    cases main with
    | none => exact absurd (run_pure_eq_ok h).1 (by simp)
    | some main =>
      obtain ⟨made, g₂, hmade, h⟩ := run_bind_eq_ok h
      obtain ⟨_, g₃, happend, h⟩ := run_bind_eq_ok h
      obtain ⟨hsame, rfl⟩ := run_pure_eq_ok h
      obtain rfl := Option.some.inj hsame
      rw [run_append, Prod.mk.injEq] at happend
      obtain ⟨-, rfl⟩ := happend
      have hadd := run_add_eq_ok hmade
      obtain ⟨hlabel, hchildren⟩ := label?_of_groupChange hfolder.nonempty hadd
      obtain ⟨ho, hisa, hid, hg₂⟩ := isProper_added hproper.1 hproper.2.1 hproper.2.2 hadd
      refine ⟨findGroup_appendRef hfound hmain ho hisa ?_ ?_ (Change.get?_addObject hadd) (by rw [hg₂]), .inr hchildren⟩
      · rw [hlabel]
        exact beq_self_eq_true _
      · rw [Graph.get?_eq_none_iff, hid]
        exact Graph.newId_notMem g _

theorem projectChange_isProper (hproject : IsFileName projectName) (hpath : IsQuotable path) (seed : String) :
    (Change.add "PBXFileReference"
      [("lastKnownFileType", .text "wrapper.pb-project"), ("name", .text projectName), ("path", .text path),
        ("sourceTree", .text "<group>")] (some projectName) seed).IsProper := by
  refine fileChange_isProper [("lastKnownFileType", "wrapper.pb-project"), ("name", projectName), ("path", path),
    ("sourceTree", "<group>")] seed ?_ ?_ hproject.isTitle.comment
  · simp only [List.forall_mem_cons]
    exact ⟨by decide, by decide, by decide, by decide, by simp⟩
  · simp only [List.forall_mem_cons]
    exact ⟨isQuotable_of_slash (by decide), hproject.isTitle.quotable, hpath, isQuotable_of_slash (by decide), by simp⟩

theorem keeps_listProject {P : Graph → Prop} (hP : Stable (Change.IsAdding fits) P)
    (hproject : IsFileName projectName) (hpath : IsQuotable path) (group : Object) (library : String) :
    Keeps P (listProject group library projectName path) := by
  have hproper := projectChange_isProper hproject hpath (projectSeed library)
  refine Gives.keeps (Q := fun _ => True) ?_
  refine (gives_add hproper fun g hg => hP.apply g _ hg hproper (isAdding_of_ne hproper (by decide))).bind
    fun file hfile => Keeps.gives ?_
  refine Keeps.bind (keeps_append fun g hg => hP.apply g _ hg ?_ (show "children" ∉ Object.faceKeys by decide))
    fun _ => keeps_pure _
  refine ⟨by decide, isQuotable_of_slash (by decide), hfile.1.id, fun c hc => ?_⟩
  obtain rfl := Option.some.inj hc
  exact hproject.isTitle.comment

/-- Where every child of the group is an object, a new project is listed there. -/
theorem lists_of_listProject (hgroup : g.findGroup fits = .ok (some group))
    (hchildren : ∀ ref ∈ group.refs "children", ref ∈ g.ids) (hproject : IsFileName projectName)
    (hpath : IsQuotable path) (h : (listProject group library projectName path).run g = (.ok (), g')) :
    Lists g' fits projectName := by
  have hproper := projectChange_isProper hproject hpath (projectSeed library)
  obtain ⟨file, g₁, hfile, h⟩ := run_bind_eq_ok h
  obtain ⟨_, g₂, happend, h⟩ := run_bind_eq_ok h
  obtain ⟨-, rfl⟩ := run_pure_eq_ok h
  rw [run_append, Prod.mk.injEq] at happend
  obtain ⟨-, rfl⟩ := happend
  have hadd := run_add_eq_ok hfile
  obtain ⟨-, -, hid, -⟩ := isProper_added hproper.1 hproper.2.1 hproper.2.2 hadd
  have hgrown : g.Grown fits g₁ := grown_of_add hproper (by decide) hadd
  obtain ⟨hget, -⟩ := Graph.get?_of_findGroup hgroup
  have hget₁ : g₁.get? group.id = some group := by rw [Change.get?_addObject hadd, hget]; rfl
  have hnew : group.hasRef "children" file.id = false := by
    rw [← Bool.not_eq_true, Object.hasRef, List.contains_iff_mem, hid]
    exact fun hin => Graph.newId_notMem g _ (hchildren _ hin)
  obtain ⟨group₁, hgroup₁, hextends₁⟩ := hgrown.findGroup hgroup
  obtain ⟨group₂, hgroup₂, hextends₂⟩ :=
    (grown_of_append g₁ group.id "children" (by decide) file.id (some projectName)).findGroup hgroup₁
  have hafter := Graph.get?_appendRef "children" file.id (some projectName) hget₁ group.id
  have hsame := (Graph.get?_of_findGroup hgroup₂).1
  rw [hextends₂.id, hextends₁.id, hafter, if_pos rfl, hnew, Option.some.injEq] at hsame
  refine ⟨group₂, hgroup₂, ⟨file.id, some projectName⟩, ?_, rfl⟩
  rw [← hsame]
  simp [Object.refScalars_appendRef_self]

end Ios
end ModuleLink
