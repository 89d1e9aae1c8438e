import ModuleLink.Proofs.Ios.ProductLinks

/-!
What linking the products of a library does to a project.  Every application gets the products for its kind of device,
each through one build file in its phase, or an instruction where it has no phase; nothing else changes.
-/

namespace ModuleLink
namespace Ios

open Plist Xcode Editing Attempt

variable {g h h' : Graph} {library : String} {links : List Link} {l l' : Link} {o o' : Object}

/-! ## All links -/

/-- A project in which the links of `done` stand, or others that need the same id, and with nothing else new. -/
structure Linked (g : Graph) (library : String) (links done : List Link) (h : Graph) : Prop where
  adds : Adds g library links h
  stands : ∀ l ∈ links, h.contains (l.id library) = true → ∃ l' ∈ links, l'.id library = l.id library ∧ Stands g library l' h
  made : ∀ l ∈ done, (l.phaseId? g).isSome = true → h.contains (l.id library) = true

/-- What is told of a link. -/
def Link.told (g : Graph) (l : Link) : List String := if (l.phaseId? g).isSome then [] else [l.instruction]

variable {done : List Link}

/-- The project stays linked where the ids that come up stand. -/
theorem Linked.grow (hlinked : Linked g library links done h) (hadds : Adds g library links h') (hgrow : FilesGrow h h')
    (hnew : ∀ l ∈ links, h'.contains (l.id library) = true → h.contains (l.id library) = true ∨
      ∃ l' ∈ links, l'.id library = l.id library ∧ Stands g library l' h') : Linked g library links done h' where
  adds := hadds
  stands l hl hcontains := by
    rcases hnew l hl hcontains with hold | hstands
    · obtain ⟨l', hl', hsame, hstands⟩ := hlinked.stands l hl hold
      exact ⟨l', hl', hsame, hstands.grow hgrow⟩
    · exact hstands
  made l hl hphase := hgrow.contains (hlinked.made l hl hphase)

/-- A link without a phase, or whose id is there already. -/
theorem Linked.concat (hlinked : Linked g library links done h)
    (hl : (l.phaseId? g).isSome = true → h.contains (l.id library) = true) :
    Linked g library links (done ++ [l]) h where
  adds := hlinked.adds
  stands := hlinked.stands
  made l' hl' hphase := by
    rcases List.mem_append.mp hl' with hl' | hl'
    · exact hlinked.made l' hl' hphase
    · obtain rfl := List.mem_singleton.mp hl'
      exact hl hphase

section Runs

variable (hg : g.IsIndexed) (hfree : HasFreeIds g library links)

include hg hfree

/-- One product makes its link stand in the phase, or is told. -/
theorem run_addProduct (hlinked : Linked g library links done h) (hl : l ∈ links) {phase : Option Object}
    (hphase : phase.map (·.id) = l.phaseId? g) :
    ∃ h', (addProduct library l.target phase l.product).run h = (.ok (l.told g), h') ∧
      Linked g library links (done ++ [l]) h' := by
  cases phase with
  | none =>
    have hnone : (l.phaseId? g).isSome = false := by rw [← hphase]; rfl
    refine ⟨h, ?_, hlinked.concat fun hsome => ?_⟩
    · rw [Link.told, hnone]
      rfl
    · rw [hnone] at hsome
      contradiction
  | some phase =>
    have hsome : (l.phaseId? g).isSome = true := by rw [← hphase]; rfl
    have htold : l.told g = [] := by rw [Link.told, if_pos hsome]
    -- With a reference to the product in the project, the build file follows unless it is there.
    have hlist {file : Object} {h₁ : Graph} (hlinked₁ : Linked g library links done h₁)
        (hfile : h₁.get? file.id = some file) (hreference : IsProductReference l.product file) :
        ∃ h', (do
          if !(← get).contains (Digest.stableId (buildSeed library l.product l.target.id)) then
            addBuildFile phase.id file.id l.product (buildSeed library l.product l.target.id)
          return [] : Editing (List String)).run h₁ = (.ok (l.told g), h') ∧
          Linked g library links (done ++ [l]) h' := by
      rw [run_bind_ok (run_get h₁), htold]
      cases hcontains : h₁.contains (l.id library) with
      | true =>
        simp only [show h₁.contains (Digest.stableId (buildSeed library l.product l.target.id)) = true from hcontains]
        exact ⟨h₁, rfl, hlinked₁.concat fun _ => hcontains⟩
      | false =>
        simp only [show h₁.contains (Digest.stableId (buildSeed library l.product l.target.id)) = false from hcontains]
        have hunused : h₁.get? (l.id library) = none := by
          rw [Graph.contains, Option.isSome_eq_false_iff, Option.isNone_iff_eq_none] at hcontains
          exact hcontains
        obtain ⟨h', hrun, hadds, hgrow, hstands, hothers⟩ :=
          hlinked₁.adds.addBuildFile hfree hl hphase.symm hunused hfile hreference
        refine ⟨h', ?_, (hlinked₁.grow hadds hgrow fun l' hl' hin => ?_).concat fun _ => ?_⟩
        · simp only [Bool.not_false, if_true]
          rw [run_bind_ok hrun]
          rfl
        · by_cases hid : l'.id library = l.id library
          · exact .inr ⟨l, hl, hid.symm, hstands⟩
          · exact .inl ((hothers _ hid).symm.trans hin)
        · obtain ⟨_, buildFile, _, -, -, -, hbuild, -⟩ := hstands
          rw [Graph.contains, hbuild]
          rfl
    rw [addProduct]
    simp only
    rcases run_productReference hlinked.adds.indexed l.product with ⟨file, hrun, hfile, hreference⟩ | ⟨hrun, hnone⟩
    · rw [run_bind_ok hrun]
      exact hlist hlinked hfile hreference
    · obtain ⟨file, h₁, hadd, hadds, hgrow, hfile, hreference, hsame⟩ :=
        hlinked.adds.addReference hg hfree hl hsome hnone
      rw [run_bind_ok hrun, run_bind_ok hadd]
      exact hlist (hlinked.grow hadds hgrow fun l' hl' hin => .inl ((hsame l' hl').symm.trans hin)) hfile hreference

/-- Products of one application, one after the other. -/
theorem run_addProducts {products : List String} {target : Object} (hlinked : Linked g library links done h)
    (hsub : ∀ l ∈ linksOf g products target, l ∈ links) :
    ∃ h', (((products.filter fun p => isTvProduct p == h.isTv target).mapM
        (addProduct library target (frameworksPhase h target))).run h =
      (.ok ((linksOf g products target).map (Link.told g)), h')) ∧
      Linked g library links (done ++ linksOf g products target) h' := by
  have hphase (l : Link) (hl : l.target = target) : (frameworksPhase h target).map (·.id) = l.phaseId? g := by
    rw [← hlinked.adds.phaseId? l, Link.phaseId?, hl]
  rw [linksOf, List.map_map, hlinked.adds.isTv]
  exact run_mapM (I := fun ps h => Linked g library links (done ++ ps.map (Link.mk target)) h)
    (fun ps p hp h₁ hlinked₁ => by
      have hl : Link.mk target p ∈ links := hsub _ (List.mem_map_of_mem hp)
      obtain ⟨h', hrun, hlinked'⟩ := run_addProduct hg hfree hlinked₁ hl (hphase ⟨target, p⟩ rfl)
      refine ⟨h', hrun, ?_⟩
      rwa [List.map_append, ← List.append_assoc])
    (by rwa [List.map_nil, List.append_nil])

end Runs

/-- All applications, one after the other. -/
theorem run_addStaticLibraries {products : List String} {targets : List Object} (hg : g.IsIndexed)
    (htargets : g.applicationTargets = .ok targets)
    (hfree : HasFreeIds g library (targets.flatMap (linksOf g products))) :
    ∃ h, (addStaticLibraries library products).run g =
        (.ok ((targets.flatMap (linksOf g products)).flatMap (Link.told g)), h) ∧
      Linked g library (targets.flatMap (linksOf g products)) (targets.flatMap (linksOf g products)) h := by
  have hask : (ask Graph.applicationTargets).run g = (.ok targets, g) := by rw [run_ask, htargets]
  have hstart : Linked g library (targets.flatMap (linksOf g products)) [] g := by
    refine ⟨adds_refl hg _ _, fun l hl hcontains => ?_, by simp⟩
    rw [Graph.contains, hfree.id_free hl] at hcontains
    contradiction
  have htarget {ts : List Object} {target : Object} (htarget : target ∈ targets) (h : Graph)
      (hlinked : Linked g library (targets.flatMap (linksOf g products)) (ts.flatMap (linksOf g products)) h) :
      ∃ h', (do
          let g ← get
          let tv := g.isTv target
          let phase := frameworksPhase g target
          let left ← (products.filter fun p => isTvProduct p == tv).mapM (addProduct library target phase)
          return left.flatten : Editing (List String)).run h =
            (.ok ((linksOf g products target).flatMap (Link.told g)), h') ∧
        Linked g library (targets.flatMap (linksOf g products)) ((ts ++ [target]).flatMap (linksOf g products)) h' := by
    obtain ⟨h', hrun, hlinked'⟩ := run_addProducts hg hfree hlinked
      fun l (hl : l ∈ linksOf g products target) => List.mem_flatMap.mpr ⟨target, htarget, hl⟩
    refine ⟨h', ?_, by simpa using hlinked'⟩
    rw [run_bind_ok (run_get h), run_bind_ok hrun]
    rfl
  obtain ⟨h, hrun, hlinked⟩ := run_mapM
    (I := fun ts h => Linked g library (targets.flatMap (linksOf g products)) (ts.flatMap (linksOf g products)) h)
    (fun ts target ht h hlinked => htarget ht h hlinked) hstart
  refine ⟨h, ?_, hlinked⟩
  rw [addStaticLibraries, run_bind_ok hask, run_bind_ok hrun, List.flatMap_assoc]
  rfl

/-! ## The whole project -/

/-- Every link that needs the id of this one is this one. -/
def Link.IsAlone (library : String) (links : List Link) (l : Link) : Prop :=
  ∀ l' ∈ links, buildSeed library l'.product l'.target.id = buildSeed library l.product l.target.id →
    l'.product = l.product ∧ l'.target.id = l.target.id

/-- A project `g'` that has come out of `g` by linking products into the applications `targets`. -/
structure LinksProducts (g : Graph) (library : String) (products : List String) (targets : List Object)
    (left : List String) (g' : Graph) : Prop where
  /-- Every application with a phase lists each product for its kind of device once. -/
  linked : ∀ t ∈ targets, ∀ p ∈ products, isTvProduct p = g.isTv t → ∀ phase, frameworksPhase g t = some phase →
    (Link.mk t p).IsAlone library (targets.flatMap (linksOf g products)) →
    ∃ phase' buildFile file, g'.get? phase.id = some phase' ∧
      (phase'.refs "files").count ((Link.mk t p).id library) = 1 ∧
      g'.get? ((Link.mk t p).id library) = some buildFile ∧ buildFile.isa = "PBXBuildFile" ∧
      buildFile.field? "fileRef" = some (.scalar ⟨file.id, some p⟩) ∧
      g'.get? file.id = some file ∧ IsProductReference p file
  /-- What is told are the products for applications without a phase. -/
  told : left = ((targets.flatMap (linksOf g products)).filter fun l => (frameworksPhase g l.target).isNone).map
    Link.instruction
  /-- No object has changed but phases, and these by entries for their own links. -/
  kept : ∀ o ∈ g.objects, ∃ (new : List Link) (o' : Object), g'.get? o.id = some o' ∧ Lengthens (new.map (Link.entry library)) o o' ∧
    (new.map (Link.id library)).Nodup ∧ ∀ l ∈ new, l ∈ targets.flatMap (linksOf g products) ∧ l.phaseId? g = some o.id
  /-- A new object is the build file of a link, or the reference to its product where there was none. -/
  fresh : ∀ o ∈ g'.objects, o.id ∉ g.ids → ∃ l ∈ targets.flatMap (linksOf g products),
    (frameworksPhase g l.target).isSome = true ∧ IsMadeFor g library l o
  /-- At most one reference is made to a product, and none where there was one. -/
  references : ∀ p, ∀ o ∈ g'.objects, o.id ∉ g.ids → IsProductReference p o →
    (∀ r ∈ g.objects, ¬IsProductReference p r) ∧
    ∀ o' ∈ g'.objects, o'.id ∉ g.ids → IsProductReference p o' → o' = o
  indexed : g'.IsIndexed
  frame : g' = { g with objects := g'.objects, index := g'.index, added := g'.added, touched := g'.touched }

section LinksProducts

variable {products : List String} {targets : List Object}

theorem flatMap_told (links : List Link) : links.flatMap (Link.told g) =
    (links.filter fun l => (frameworksPhase g l.target).isNone).map Link.instruction := by
  induction links with
  | nil => rfl
  | cons l links ih =>
    rw [List.flatMap_cons, ih, Link.told, Link.phaseId?]
    cases hphase : frameworksPhase g l.target with
    | none => rw [List.filter_cons_of_pos (by rw [hphase]; rfl)]; rfl
    | some phase => rw [List.filter_cons_of_neg (by rw [hphase]; simp)]; rfl

theorem mem_linksOf {l : Link} : l ∈ targets.flatMap (linksOf g products) ↔
    l.target ∈ targets ∧ l.product ∈ products ∧ isTvProduct l.product = g.isTv l.target := by
  simp only [linksOf, List.mem_flatMap, List.mem_map, List.mem_filter, beq_iff_eq]
  constructor
  · rintro ⟨t, ht, p, ⟨hp, htv⟩, rfl⟩
    exact ⟨ht, hp, htv⟩
  · rintro ⟨ht, hp, htv⟩
    exact ⟨l.target, ht, l.product, ⟨hp, htv⟩, rfl⟩

/-- Applications are objects of the project. -/
theorem mem_objects_of_applicationTargets (htargets : g.applicationTargets = .ok targets) :
    ∀ t ∈ targets, t ∈ g.objects := by
  intro t ht
  obtain ⟨all, hall, h⟩ := ok_of_bind htargets
  obtain ⟨project, -, hall⟩ := ok_of_bind hall
  rw [← Except.ok.inj h] at ht
  have hmem := (List.mem_filter.mp ht).1
  rw [← Except.ok.inj hall] at hmem
  obtain ⟨ref, -, href⟩ := List.mem_filterMap.mp (List.mem_filter.mp hmem).1
  exact (Graph.get?_mem href).1

/-- The file list of a phase has each entry for a link once. -/
theorem Adds.count_id (hadds : Adds g library links h) (hfree : HasFreeIds g library links) (hl : l ∈ links)
    {phase : String} (hphase : l.phaseId? g = some phase) (ho : h.get? phase = some o) (hin : l.id library ∈ o.refs "files") :
    (o.refs "files").count (l.id library) = 1 := by
  obtain ⟨p, -, hold, -⟩ := hadds.get?_phase hphase
  obtain ⟨new, o', ho', hlong, hnodup, -⟩ := hadds.kept hold
  obtain rfl := Option.some.inj (ho'.symm.trans ho)
  have hnot : l.id library ∉ p.refs "files" := hfree.unlisted _ (buildSeed_mem hl) p (Graph.get?_mem hold).1
  have hvalues : (new.map (Link.entry library)).map Scalar.value = new.map (Link.id library) := by
    rw [List.map_map]
    exact List.map_congr_left fun l _ => l.value_entry library
  rw [hlong.refs_files, hvalues] at hin ⊢
  rw [List.count_append, List.count_eq_zero_of_not_mem hnot, Nat.zero_add]
  exact List.count_eq_one_of_mem hnodup ((List.mem_append.mp hin).resolve_left hnot)

/-- A link that is alone stands. -/
theorem Linked.stands_of_isAlone (hlinked : Linked g library links links h) (hg : g.IsIndexed)
    (hfree : HasFreeIds g library links) (htargets : ∀ l ∈ links, l.target ∈ g.objects) (hl : l ∈ links)
    (hphase : (l.phaseId? g).isSome = true) (halone : l.IsAlone library links) : Stands g library l h := by
  obtain ⟨l', hl', hsame, hstands⟩ := hlinked.stands l hl (hlinked.made l hl hphase)
  obtain ⟨hproduct, htarget⟩ := halone l' hl' (hfree.distinct _ (buildSeed_mem hl') _ (buildSeed_mem hl) hsame)
  have htarget' := List.inj_on_of_nodup_map hg.nodup (htargets l' hl') (htargets l hl) htarget
  cases l
  cases l'
  cases hproduct
  cases htarget'
  exact hstands

/-- Linking the products of a library reaches exactly the applications of their kind of device. -/
theorem addStaticLibraries_links (hg : g.IsIndexed) (htargets : g.applicationTargets = .ok targets)
    (hfree : HasFreeIds g library (targets.flatMap (linksOf g products))) :
    ∃ left g', (addStaticLibraries library products).run g = (.ok left, g') ∧
      LinksProducts g library products targets left g' := by
  obtain ⟨g', hrun, hlinked⟩ := run_addStaticLibraries hg htargets hfree
  have hadds := hlinked.adds
  have hobjects := mem_objects_of_applicationTargets htargets
  have hnew {o : Object} (ho : o ∈ g'.objects) (hid : o.id ∉ g.ids) :
      ∃ l ∈ targets.flatMap (linksOf g products), (l.phaseId? g).isSome = true ∧ IsMadeFor g library l o := by
    obtain ⟨l, hl, hphase, hmade, -⟩ := hadds.fresh (Graph.get?_eq_none_iff.mpr hid) (Graph.get?_of_mem hadds.indexed.nodup ho)
    exact ⟨l, hl, hphase, hmade⟩
  refine ⟨_, g', hrun, ?_, flatMap_told _, fun o ho => ?_, fun o ho hid => ?_, fun p o ho hid href => ?_, hadds.indexed,
    hadds.frame⟩
  · intro t ht p hp htv phase hphase halone
    have hl : Link.mk t p ∈ targets.flatMap (linksOf g products) := mem_linksOf.mpr ⟨ht, hp, htv⟩
    have hphaseId : (Link.mk t p).phaseId? g = some phase.id := by rw [Link.phaseId?, hphase]; rfl
    obtain ⟨phase', buildFile, file, hsame, hget, hin, hrest⟩ := hlinked.stands_of_isAlone hg hfree
      (fun l hl => hobjects _ (mem_linksOf.mp hl).1) hl (by rw [hphaseId]; rfl) halone
    rw [hphaseId, Option.some.injEq] at hsame
    rw [← hsame] at hget
    exact ⟨phase', buildFile, file, hget, hadds.count_id hfree hl hphaseId hget hin, hrest⟩
  · obtain ⟨new, o', ho', hlong, hnodup, hentries⟩ := hadds.kept (Graph.get?_of_mem hg.nodup ho)
    exact ⟨new, o', ho', hlong, hnodup, fun l hl => ⟨(hentries l hl).1, (hentries l hl).2.1⟩⟩
  · obtain ⟨l, hl, hphase, hmade⟩ := hnew ho hid
    exact ⟨l, hl, by rwa [Link.phaseId?, Option.isSome_map] at hphase, hmade⟩
  · have hmadeFor {o : Object} (ho : o ∈ g'.objects) (hid : o.id ∉ g.ids) (href : IsProductReference p o) :
        o.id = productId library p ∧ ∀ r ∈ g.objects, ¬IsProductReference p r := by
      obtain ⟨l, hl, -, hmade⟩ := hnew ho hid
      cases hmade with
      | buildFile _ hisa =>
        rw [href.isa] at hisa
        contradiction
      | reference hid' href' hmissing =>
        obtain rfl := Option.some.inj (href'.path.symm.trans href.path)
        exact ⟨hid', hmissing⟩
    refine ⟨(hmadeFor ho hid href).2, fun o' ho' hid' href' => ?_⟩
    exact List.inj_on_of_nodup_map hadds.indexed.nodup ho' ho
      ((hmadeFor ho' hid' href').1.trans (hmadeFor ho hid href).1.symm)

end LinksProducts

/-- Ids that are known can be compared. -/
theorem hasFreeIds_of_ids (links : List Link) (ids : List String)
    (hids : (seedsOf library links).dedup.map Digest.stableId = ids) (hnodup : ids.Nodup)
    (hfree : ∀ id ∈ ids, id ∉ g.ids ∧ ∀ o ∈ g.objects, id ∉ o.refs "files") : HasFreeIds g library links := by
  subst hids
  have hmem {s : String} (hs : s ∈ seedsOf library links) :
      Digest.stableId s ∈ (seedsOf library links).dedup.map Digest.stableId :=
    List.mem_map_of_mem (List.mem_dedup.mpr hs)
  refine ⟨fun s hs => (hfree _ (hmem hs)).1, fun s hs => (hfree _ (hmem hs)).2, fun s hs s' hs' hsame => ?_⟩
  exact List.inj_on_of_nodup_map hnodup (List.mem_dedup.mpr hs) (List.mem_dedup.mpr hs') hsame

/-! ## Projects of a few objects -/

def bareObject (id : String) (fields : List (String × Value)) : Object := ⟨id, ⟨fields, []⟩, none⟩

/-- The project of the objects, with the first one as its root. -/
def graphOf (objects : List Object) : Graph where
  source := "project.pbxproj"
  text := []
  root := ⟨[("rootObject", .text "P")], []⟩
  tableEnd := 0
  objects := objects
  index := objects.foldl (fun ix o => indexInsert o.isa o.id ix) []
  spans := []
  sections := []

theorem isIndexed_graphOf {objects : List Object} (hnodup : (objects.map (·.id)).Nodup) :
    (graphOf objects).IsIndexed := ⟨hnodup, listed_foldl objects⟩

def appObject (id : String) (fields : List (String × Value)) : Object :=
  bareObject id (("isa", .text "PBXNativeTarget") :: ("productType", .text applicationType) :: fields)

def phaseObject (id : String) : Object := bareObject id [("isa", .text "PBXFrameworksBuildPhase"), ("files", .list [])]

def phoneApp : Object := appObject "T1" [("buildPhases", .list [.text "F1"])]

def tvApp : Object := appObject "T2" [("buildPhases", .list [.text "F2"]), ("buildConfigurationList", .text "L2")]

def watchApp : Object := appObject "T3" [("name", .text "Watch")]

/-- A project with a phone app, a television app and an app without a phase. -/
def mixedProject : Graph := graphOf [
  bareObject "P" [("isa", .text "PBXProject"), ("targets", .list [.text "T1", .text "T2", .text "T3"])],
  phoneApp, tvApp, watchApp, phaseObject "F1", phaseObject "F2",
  bareObject "L2" [("isa", .text "XCConfigurationList"), ("buildConfigurations", .list [.text "C2"])],
  bareObject "C2" [("isa", .text "XCBuildConfiguration"),
    ("buildSettings", .dict ⟨[("SDKROOT", .text "appletvos")], []⟩)]]

theorem addStaticLibraries_links_mixedProject :
    mixedProject.IsIndexed ∧ mixedProject.applicationTargets = .ok [phoneApp, tvApp, watchApp] ∧
      ∃ left g', (addStaticLibraries "foo" ["libFoo.a", "libFoo-tvOS.a"]).run mixedProject = (.ok left, g') ∧
        LinksProducts mixedProject "foo" ["libFoo.a", "libFoo-tvOS.a"] [phoneApp, tvApp, watchApp] left g' := by
  have hindexed : mixedProject.IsIndexed := isIndexed_graphOf (by decide +kernel)
  have htargets : mixedProject.applicationTargets = .ok [phoneApp, tvApp, watchApp] := by rfl
  have hfree : HasFreeIds mixedProject "foo" _ := hasFreeIds_of_ids
    ([phoneApp, tvApp, watchApp].flatMap (linksOf mixedProject ["libFoo.a", "libFoo-tvOS.a"]))
    ["A6908B513873BFFCFBAE8A64", "842B1D70C1C334409E0FEE37", "DB58D37696F0901856581C34",
      "1387AAB3F3192CFF839B4455", "80884FB52531E4E297CF9665"]
    (by decide +kernel) (by decide) (by decide +kernel)
  exact ⟨hindexed, htargets, addStaticLibraries_links hindexed htargets hfree⟩

/-! ### One seed for two links -/

/-- An app whose id is the end of the seed of another app's build file. -/
def otherApp : Object := appObject "b:T" [("buildPhases", .list [.text "F2"])]

def sharedApp : Object := appObject "T" [("buildPhases", .list [.text "F1"])]

def productFile (id product : String) : Object :=
  bareObject id [("isa", .text "PBXFileReference"), ("path", .text product), ("sourceTree", .text "BUILT_PRODUCTS_DIR")]

/-- A project in which the product `a` of one app has the seed of the product `a:b` of the other one. -/
def sharedSeedProject : Graph := graphOf [
  bareObject "P" [("isa", .text "PBXProject"), ("targets", .list [.text "b:T", .text "T"])],
  otherApp, sharedApp, phaseObject "F1", phaseObject "F2", productFile "R1" "a", productFile "R2" "a:b"]

/-- The phase of an app does not list a product, since the id of the build file was given to another one. -/
theorem addStaticLibraries_sharedSeed :
    sharedSeedProject.IsIndexed ∧ sharedSeedProject.applicationTargets = .ok [otherApp, sharedApp] ∧
      HasFreeIds sharedSeedProject "lib" ([otherApp, sharedApp].flatMap (linksOf sharedSeedProject ["a", "a:b"])) ∧
      isTvProduct "a:b" = sharedSeedProject.isTv sharedApp ∧
      frameworksPhase sharedSeedProject sharedApp = some (phaseObject "F1") ∧
      ∃ left g' phase, (addStaticLibraries "lib" ["a", "a:b"]).run sharedSeedProject = (.ok left, g') ∧
        g'.get? "F1" = some phase ∧ (Link.mk sharedApp "a:b").id "lib" ∉ phase.refs "files" := by
  have hindexed : sharedSeedProject.IsIndexed := isIndexed_graphOf (by decide +kernel)
  have htargets : sharedSeedProject.applicationTargets = .ok [otherApp, sharedApp] := by rfl
  have hfree : HasFreeIds sharedSeedProject "lib" _ := hasFreeIds_of_ids
    ([otherApp, sharedApp].flatMap (linksOf sharedSeedProject ["a", "a:b"]))
    ["AB3D4B177BDCBF408110EB28", "3C8301CE866CEDEB11474791", "6D380621BB2686CF183FA9BA",
      "822E875214AA97D007F19447", "230D2EFEB652B318A1E13E06"]
    (by decide +kernel) (by decide) (by decide +kernel)
  have hphase : (((addStaticLibraries "lib" ["a", "a:b"]).run sharedSeedProject).2.get? "F1").any (fun o =>
      !(o.refs "files").contains ((Link.mk sharedApp "a:b").id "lib")) = true := by decide +kernel
  obtain ⟨g', hrun, -⟩ := run_addStaticLibraries hindexed htargets hfree
  rw [hrun, Option.any_eq_true] at hphase
  obtain ⟨phase, hget, hnot⟩ := hphase
  refine ⟨hindexed, htargets, hfree, by decide +kernel, by rfl, _, g', phase, hrun, hget, ?_⟩
  simpa using hnot

end Ios
end ModuleLink
