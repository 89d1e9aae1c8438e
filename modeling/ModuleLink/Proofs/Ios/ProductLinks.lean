import ModuleLink.Proofs.Ios.Additions
import ModuleLink.Proofs.Xcode.Widened

/-!
Links of products with applications: the ids they need, what a project gains while they are made, and the two steps that
make one, a reference to the product and a build file in the phase of the application.
-/

namespace ModuleLink
namespace Ios

open Plist Xcode Editing Attempt

/-! ## Links -/

/-- A product for an application. -/
structure Link where
  target : Object
  product : String

namespace Link

/-- The id of the build file that stands for the link. -/
def id (library : String) (l : Link) : String := Digest.stableId (buildSeed library l.product l.target.id)

/-- The entry of the link in a phase. -/
def entry (library : String) (l : Link) : Scalar := ⟨l.id library, some (entryName l.product)⟩

/-- What is told where the application has no phase. -/
def instruction (l : Link) : String :=
  "add " ++ l.product ++ " to the 'Link Binary With Libraries' phase of target " ++ (l.target.text? "name").getD "None"

/-- The phase that the link is listed in. -/
def phaseId? (g : Graph) (l : Link) : Option String := (frameworksPhase g l.target).map (·.id)

theorem value_entry (library : String) (l : Link) : (l.entry library).value = l.id library :=
  (stableId_isPlain _).value _

end Link

/-- The links of an application to the products for its kind of device. -/
def linksOf (g : Graph) (products : List String) (target : Object) : List Link :=
  (products.filter fun p => isTvProduct p == g.isTv target).map (Link.mk target)

/-- The id of the reference that is made to a product. -/
def productId (library product : String) : String := Digest.stableId (productSeed library product)

/-- The seeds of the ids that links may need. -/
def seedsOf (library : String) (links : List Link) : List String :=
  links.map (fun l => productSeed library l.product) ++ links.map fun l => buildSeed library l.product l.target.id

/-- A project has none of the ids that links may need, and these differ where their seeds do. -/
structure HasFreeIds (g : Graph) (library : String) (links : List Link) : Prop where
  free : ∀ s ∈ seedsOf library links, Digest.stableId s ∉ g.ids
  unlisted : ∀ s ∈ seedsOf library links, ∀ o ∈ g.objects, Digest.stableId s ∉ o.refs "files"
  distinct : ∀ s ∈ seedsOf library links, ∀ s' ∈ seedsOf library links, Digest.stableId s = Digest.stableId s' → s = s'

/-- The object refers to a product by its file name. -/
structure IsProductReference (product : String) (o : Object) : Prop where
  isa : o.isa = "PBXFileReference"
  path : o.text? "path" = some product
  sourceTree : o.text? "sourceTree" = some "BUILT_PRODUCTS_DIR"

/-! ## Seeds -/

theorem productSeed_inj {library p p' : String} (h : productSeed library p = productSeed library p') : p = p' := by
  have hlist := congrArg String.toList h
  simp only [productSeed, String.toList_append] at hlist
  exact String.toList_inj.mp (List.append_cancel_left hlist)

theorem productSeed_ne_buildSeed (library p p' target : String) : productSeed library p ≠ buildSeed library p' target := by
  intro h
  have hlist := congrArg String.toList h
  simp only [productSeed, buildSeed, String.toList_append, List.append_assoc] at hlist
  exact absurd (List.append_cancel_left hlist) (by simp)

variable {g h h' : Graph} {library : String} {links : List Link} {l l' : Link} {o o' : Object}

theorem productSeed_mem (hl : l ∈ links) : productSeed library l.product ∈ seedsOf library links :=
  List.mem_append_left _ (List.mem_map_of_mem hl)

theorem buildSeed_mem (hl : l ∈ links) : buildSeed library l.product l.target.id ∈ seedsOf library links :=
  List.mem_append_right _ (List.mem_map_of_mem hl)

theorem HasFreeIds.productId_ne (hfree : HasFreeIds g library links) (hl : l ∈ links) (hl' : l' ∈ links) :
    productId library l.product ≠ l'.id library := fun e =>
  productSeed_ne_buildSeed _ _ _ _ (hfree.distinct _ (productSeed_mem hl) _ (buildSeed_mem hl') e)

theorem HasFreeIds.product_eq (hfree : HasFreeIds g library links) (hl : l ∈ links) (hl' : l' ∈ links)
    (h : productId library l.product = productId library l'.product) : l.product = l'.product :=
  productSeed_inj (hfree.distinct _ (productSeed_mem hl) _ (productSeed_mem hl') h)

theorem HasFreeIds.productId_free (hfree : HasFreeIds g library links) (hl : l ∈ links) :
    g.get? (productId library l.product) = none :=
  Graph.get?_eq_none_iff.mpr (hfree.free _ (productSeed_mem hl))

theorem HasFreeIds.id_free (hfree : HasFreeIds g library links) (hl : l ∈ links) : g.get? (l.id library) = none :=
  Graph.get?_eq_none_iff.mpr (hfree.free _ (buildSeed_mem hl))

/-! ## Longer lists of files -/

/-- The object with more entries at the end of its list of files. -/
structure Lengthens (entries : List Scalar) (o o' : Object) : Prop where
  id : o'.id = o.id
  comment : o'.comment = o.comment
  fields : ∀ k, k ≠ "files" → o'.field? k = o.field? k
  files : o'.listField "files" = o.listField "files" ++ entries.map .scalar
  same : entries = [] → o' = o

theorem lengthens_refl (o : Object) : Lengthens [] o o := ⟨rfl, rfl, fun _ _ => rfl, by simp, fun _ => rfl⟩

theorem lengthens_appendRef (o : Object) (s : Scalar) : Lengthens [s] o (o.appendRef "files" s) where
  id := rfl
  comment := rfl
  fields k hk := Object.field?_setField_of_ne hk _
  files := by
    rw [Object.appendRef, Object.listField, Object.field?_setField_self]
    rfl
  same h := by contradiction

section Lengthens

variable {entries more : List Scalar} {o'' : Object}

theorem Lengthens.trans (h : Lengthens entries o o') (h' : Lengthens more o' o'') :
    Lengthens (entries ++ more) o o'' where
  id := h'.id.trans h.id
  comment := h'.comment.trans h.comment
  fields k hk := (h'.fields k hk).trans (h.fields k hk)
  files := by rw [h'.files, h.files, List.map_append, List.append_assoc]
  same hnil := by
    obtain ⟨hentries, hmore⟩ := List.append_eq_nil_iff.mp hnil
    rw [h'.same hmore, h.same hentries]

theorem Lengthens.text? (h : Lengthens entries o o') {k : String} (hk : k ≠ "files") : o'.text? k = o.text? k := by
  rw [Object.text?, Object.text?, h.fields k hk]

theorem Lengthens.isa (h : Lengthens entries o o') : o'.isa = o.isa := by
  rw [Object.isa, Object.isa, h.text? (by decide)]

theorem Lengthens.refs (h : Lengthens entries o o') {k : String} (hk : k ≠ "files") : o'.refs k = o.refs k := by
  rw [Object.refs, Object.refs, Object.refScalars, Object.refScalars, h.fields k hk]

theorem Lengthens.refs_files (h : Lengthens entries o o') :
    o'.refs "files" = o.refs "files" ++ entries.map Scalar.value := by
  have hscalars : (entries.map Value.scalar).filterMap Value.asScalar? = entries := by
    rw [List.filterMap_map]
    exact List.filterMap_some
  rw [Object.refs, Object.refs, ← Object.filterMap_listField, h.files, List.filterMap_append, hscalars,
    Object.filterMap_listField, List.map_append]

theorem Lengthens.widens (h : Lengthens entries o o') : o.Widens o' where
  id := h.id
  fields k hk := h.fields k (by rintro rfl; exact hk (by decide))
  files ref href := by
    rw [h.refs_files]
    exact List.mem_append_left _ href

end Lengthens

/-- Every object is still there, and none has changed but phases, whose lists of files got longer. -/
structure FilesGrow (h h' : Graph) : Prop where
  kept : ∀ {id o}, h.get? id = some o → ∃ entries o', h'.get? id = some o' ∧ Lengthens entries o o' ∧
    (o.isa ≠ "PBXFrameworksBuildPhase" → o' = o)

theorem FilesGrow.trans {h'' : Graph} (hgrow : FilesGrow h h') (hgrow' : FilesGrow h' h'') : FilesGrow h h'' := by
  refine ⟨fun {id o} ho => ?_⟩
  obtain ⟨entries, o', ho', hlong, hsame⟩ := hgrow.kept ho
  obtain ⟨more, o'', ho'', hlong', hsame'⟩ := hgrow'.kept ho'
  refine ⟨entries ++ more, o'', ho'', hlong.trans hlong', fun hisa => ?_⟩
  rw [hsame' (by rw [hlong.isa]; exact hisa), hsame hisa]

theorem filesGrow_addObject {isa seed : String} {fields : List (String × Draft)} {comment : Option String}
    (hadd : h.addObject isa fields comment seed = .ok (h', o)) : FilesGrow h h' := by
  refine ⟨fun {id p} hp => ⟨[], p, ?_, lengthens_refl p, fun _ => rfl⟩⟩
  rw [Change.get?_addObject hadd, hp]
  rfl

theorem filesGrow_appendRef {owner : String} (hget : h.get? owner = some o) (hisa : o.isa = "PBXFrameworksBuildPhase")
    (ref : String) (comment : Option String) : FilesGrow h (h.appendRef owner "files" ref comment).1 := by
  refine ⟨fun {id p} hp => ?_⟩
  rw [Graph.get?_appendRef "files" ref comment hget]
  split
  next hid =>
    rw [hid, hget] at hp
    obtain rfl := Option.some.inj hp
    split
    · exact ⟨[], _, rfl, lengthens_refl _, fun _ => rfl⟩
    · exact ⟨_, _, rfl, lengthens_appendRef _ _, fun hne => absurd hisa hne⟩
  · exact ⟨[], p, hp, lengthens_refl p, fun _ => rfl⟩

/-! ## What links add -/

/-- The fields of objects that are made for links. -/
def madeKeys : List String := ["isa", "fileRef", "explicitFileType", "includeInIndex", "path", "sourceTree"]

/-- An object that is made for a link: its build file, or the reference to its product where there was none. -/
inductive IsMadeFor (g : Graph) (library : String) (l : Link) (o : Object) : Prop
  | buildFile (id : o.id = l.id library) (isa : o.isa = "PBXBuildFile")
  | reference (id : o.id = productId library l.product) (isReference : IsProductReference l.product o)
      (missing : ∀ r ∈ g.objects, ¬IsProductReference l.product r)

/-- A project `h` that has come out of `g` by making some of the links. -/
structure Adds (g : Graph) (library : String) (links : List Link) (h : Graph) : Prop where
  frame : h = { g with objects := h.objects, index := h.index, added := h.added, touched := h.touched }
  indexed : h.IsIndexed
  kept : ∀ {id o}, g.get? id = some o → ∃ (new : List Link) (o' : Object), h.get? id = some o' ∧
    Lengthens (new.map (Link.entry library)) o o' ∧ (new.map (Link.id library)).Nodup ∧
    ∀ l ∈ new, l ∈ links ∧ l.phaseId? g = some id ∧ h.contains (l.id library) = true
  fresh : ∀ {id o}, g.get? id = none → h.get? id = some o → ∃ l ∈ links, (l.phaseId? g).isSome = true ∧
    IsMadeFor g library l o ∧ ∀ k, k ∉ madeKeys → o.field? k = none

theorem adds_refl (hindexed : g.IsIndexed) (library : String) (links : List Link) : Adds g library links g where
  frame := rfl
  indexed := hindexed
  kept {_ o} ho := ⟨[], o, ho, lengthens_refl o, List.nodup_nil, by simp⟩
  fresh hnone hsome := by
    rw [hnone] at hsome
    contradiction

/-! ### The same questions -/

theorem IsMadeFor.isa_mem (h : IsMadeFor g library l o) : o.isa ∈ gainedKinds := by
  cases h with
  | buildFile _ hisa => rw [hisa]; decide
  | reference _ href _ => rw [href.isa]; decide

theorem Adds.widens (hadds : Adds g library links h) : g.Widens h where
  root := by rw [hadds.frame]
  kept ho := by
    obtain ⟨new, o', ho', hlong, -⟩ := hadds.kept ho
    exact ⟨o', ho', hlong.widens⟩
  fresh hnone hsome := by
    obtain ⟨l, -, -, hmade, -⟩ := hadds.fresh hnone hsome
    exact hmade.isa_mem

theorem Adds.phaseId? (hadds : Adds g library links h) (l : Link) : l.phaseId? h = l.phaseId? g :=
  hadds.widens.buildPhase l.target.widens_refl (by decide)

theorem Adds.isTv (hadds : Adds g library links h) (target : Object) : h.isTv target = g.isTv target := by
  have hsettings (refs : List String) (f : Object → Bool) (hf : ∀ o, o.field? "buildSettings" = none → f o = false)
      (hsame : ∀ o o', o'.field? "buildSettings" = o.field? "buildSettings" → f o' = f o) :
      (refs.filterMap h.get?).any f = (refs.filterMap g.get?).any f := by
    induction refs with
    | nil => rfl
    | cons ref refs ih =>
      cases hget : g.get? ref with
      | none =>
        rw [List.filterMap_cons_none hget, ← ih]
        cases hget' : h.get? ref with
        | none => rw [List.filterMap_cons_none hget']
        | some o =>
          obtain ⟨l', -, -, -, hkeys⟩ := hadds.fresh hget hget'
          rw [List.filterMap_cons_some hget', List.any_cons, hf o (hkeys _ (by decide)), Bool.false_or]
      | some o =>
        obtain ⟨new, o', hget', hlong, -⟩ := hadds.kept hget
        rw [List.filterMap_cons_some hget, List.filterMap_cons_some hget', List.any_cons, List.any_cons, ih,
          hsame o o' (hlong.fields _ (by decide))]
  have hconfigurations (o : Object) (h : o.field? "buildSettings" = none) : o.buildSettings = {} := by
    rw [Object.buildSettings, h]
  rw [Graph.isTv, Graph.isTv, Graph.buildConfigurations, Graph.buildConfigurations]
  cases target.text? "buildConfigurationList" with
  | none => rfl
  | some id =>
    rw [Option.bind_some, Option.bind_some]
    cases hget : g.get? id with
    | none =>
      cases hget' : h.get? id with
      | none => rfl
      | some o =>
        obtain ⟨l', -, -, -, hkeys⟩ := hadds.fresh hget hget'
        have hnone : o.refs "buildConfigurations" = [] := by
          rw [Object.refs, Object.refScalars, hkeys _ (by decide)]
          rfl
        simp only [hnone]
        rfl
    | some o =>
      obtain ⟨new, o', hget', hlong, -⟩ := hadds.kept hget
      rw [hget']
      simp only [hlong.refs (show "buildConfigurations" ≠ "files" by decide)]
      refine hsettings _ _ (fun o ho => ?_) fun o o' hsame => ?_
      · rw [hconfigurations o ho]
        rfl
      · rw [Object.buildSettings, Object.buildSettings, hsame]

/-! ### Single links -/

/-- The link stands: its phase lists a build file for it, and that one names a reference to its product. -/
def Stands (g : Graph) (library : String) (l : Link) (h : Graph) : Prop :=
  ∃ phase buildFile file, l.phaseId? g = some phase.id ∧ h.get? phase.id = some phase ∧
    l.id library ∈ phase.refs "files" ∧ h.get? (l.id library) = some buildFile ∧ buildFile.isa = "PBXBuildFile" ∧
    buildFile.field? "fileRef" = some (.scalar ⟨file.id, some l.product⟩) ∧ h.get? file.id = some file ∧
    IsProductReference l.product file

theorem Stands.grow (hstands : Stands g library l h) (hgrow : FilesGrow h h') : Stands g library l h' := by
  obtain ⟨phase, buildFile, file, hphase, hget, hin, hbuild, hisa, href, hfile, hreference⟩ := hstands
  obtain ⟨entries, phase', hget', hlong, -⟩ := hgrow.kept hget
  obtain ⟨-, buildFile', hbuild', -, hsame⟩ := hgrow.kept hbuild
  obtain ⟨-, file', hfile', -, hsame'⟩ := hgrow.kept hfile
  obtain rfl := hsame (by rw [hisa]; decide)
  obtain rfl := hsame' (by rw [hreference.isa]; decide)
  refine ⟨phase', buildFile', file', by rw [hlong.id, hphase], by rw [hlong.id, hget'], ?_, hbuild', hisa, href, hfile',
    hreference⟩
  rw [hlong.refs_files]
  exact List.mem_append_left _ hin

theorem FilesGrow.contains (hgrow : FilesGrow h h') {id : String} (hid : h.contains id = true) :
    h'.contains id = true := by
  obtain ⟨o, ho⟩ := Option.isSome_iff_exists.mp hid
  obtain ⟨-, o', ho', -⟩ := hgrow.kept ho
  rw [Graph.contains, ho']
  rfl

/-- The project with another object for a link. -/
theorem Adds.addObject (hadds : Adds g library links h) {isa seed : String} {fields : List (String × Draft)}
    {comment : Option String} (hadd : h.addObject isa fields comment seed = .ok (h', o))
    (hh' : h' = { h with
      objects := h.objects ++ [o]
      index := indexInsert isa o.id h.index
      added := h.added ++ [o.id] })
    (hl : l ∈ links) (hphase : (l.phaseId? g).isSome = true) (hmade : IsMadeFor g library l o) (hisa : o.isa = isa)
    (hkeys : ∀ k, k ∉ madeKeys → o.field? k = none) (hnone : h.get? o.id = none) : Adds g library links h' where
  frame := by rw [hh', hadds.frame]
  indexed := hadds.indexed.append (Graph.get?_eq_none_iff.mp hnone) (by rw [hh']) (by rw [hh', hisa])
  kept {id p} hp := by
    obtain ⟨new, p', hp', hlong, hnodup, hnew⟩ := hadds.kept hp
    refine ⟨new, p', by rw [Change.get?_addObject hadd, hp', Option.some_or], hlong, hnodup, fun l hl => ?_⟩
    obtain ⟨hl, hid, hcontains⟩ := hnew l hl
    exact ⟨hl, hid, (filesGrow_addObject hadd).contains hcontains⟩
  fresh {id p} hnone hp := by
    rw [Change.get?_addObject hadd] at hp
    cases hold : h.get? id with
    | some q =>
      rw [hold, Option.some_or] at hp
      exact hadds.fresh hnone (hold.trans hp)
    | none =>
      rw [hold, Option.none_or] at hp
      split at hp
      · obtain rfl := Option.some.inj hp
        exact ⟨l, hl, hphase, hmade, hkeys⟩
      · contradiction

/-- A product is found, or there is no reference to it. -/
theorem run_productReference (hindexed : h.IsIndexed) (product : String) :
    (∃ file, (productReference product).run h = (.ok (some file), h) ∧ h.get? file.id = some file ∧
      IsProductReference product file) ∨
    ((productReference product).run h = (.ok none, h) ∧ ∀ r ∈ h.objects, ¬IsProductReference product r) := by
  rw [productReference, run_ask, bind_of_ok (hindexed.objectsOf _)]
  cases hfind : (h.objects.filter fun o => o.isa == "PBXFileReference").find? fun r =>
      r.text? "path" == some product && r.text? "sourceTree" == some "BUILT_PRODUCTS_DIR" with
  | some file =>
    obtain ⟨hmem, hisa⟩ := List.mem_filter.mp (List.mem_of_find?_eq_some hfind)
    have hfits := List.find?_some hfind
    rw [Bool.and_eq_true, beq_iff_eq, beq_iff_eq] at hfits
    exact .inl ⟨file, rfl, Graph.get?_of_mem hindexed.nodup hmem, eq_of_beq hisa, hfits.1, hfits.2⟩
  | none =>
    refine .inr ⟨rfl, fun r hr href => ?_⟩
    refine List.find?_eq_none.mp hfind r (List.mem_filter.mpr ⟨hr, beq_iff_eq.mpr href.isa⟩) ?_
    rw [href.path, href.sourceTree, beq_self_eq_true, beq_self_eq_true]
    rfl

/-- Where there is no reference to the product one is made, with an id that was free. -/
theorem Adds.addReference (hg : g.IsIndexed) (hadds : Adds g library links h) (hfree : HasFreeIds g library links) (hl : l ∈ links)
    (hphase : (l.phaseId? g).isSome = true) (hnone : ∀ r ∈ h.objects, ¬IsProductReference l.product r) :
    ∃ file h', (add "PBXFileReference" [("explicitFileType", .text "archive.ar"), ("includeInIndex", .text "0"),
        ("path", .text l.product), ("sourceTree", .text "BUILT_PRODUCTS_DIR")] (some l.product)
        (productSeed library l.product)).run h = (.ok file, h') ∧
      Adds g library links h' ∧ FilesGrow h h' ∧ h'.get? file.id = some file ∧ IsProductReference l.product file ∧
      ∀ l' ∈ links, h'.contains (l'.id library) = h.contains (l'.id library) := by
  obtain ⟨h', file, hadd⟩ := h.exists_addObject "PBXFileReference"
    [("explicitFileType", .text "archive.ar"), ("includeInIndex", .text "0"), ("path", .text l.product),
      ("sourceTree", .text "BUILT_PRODUCTS_DIR")] (some l.product) (productSeed library l.product)
    (by simp) (by simp only [List.forall_mem_cons]; exact ⟨⟨_, rfl⟩, ⟨_, rfl⟩, ⟨_, rfl⟩, ⟨_, rfl⟩, by simp⟩)
  obtain ⟨hid, hisa, hh'⟩ := Graph.eq_of_addObject hadd (by simp) (by decide)
  -- An object with that id would be a reference to the product.
  have hunused : h.get? (productId library l.product) = none := by
    by_contra hsome
    obtain ⟨r, hr⟩ := Option.ne_none_iff_exists'.mp hsome
    obtain ⟨l', hl', -, hmade, -⟩ := hadds.fresh (hfree.productId_free hl) hr
    obtain ⟨hmem, hrid⟩ := Graph.get?_mem hr
    cases hmade with
    | buildFile hbuild => exact hfree.productId_ne hl hl' (hrid.symm.trans hbuild)
    | reference href hreference =>
      rw [← hfree.product_eq hl hl' (hrid.symm.trans href)] at hreference
      exact hnone r hmem hreference
  rw [Graph.newId_of_free hunused, ← productId] at hid
  obtain ⟨hthere, hothers⟩ := field?_added hadd (by simp)
  simp only [List.forall_mem_cons] at hthere
  obtain ⟨-, -, ⟨path, hpath, hpathField⟩, ⟨tree, htree, htreeField⟩, -⟩ := hthere
  have hreference : IsProductReference l.product file :=
    ⟨hisa, text?_of_draft hpath hpathField, text?_of_draft htree htreeField⟩
  have hmissing : ∀ r ∈ g.objects, ¬IsProductReference l.product r := by
    intro r hr hreference
    obtain ⟨new, r', hr', hlong, -⟩ := hadds.kept (Graph.get?_of_mem hg.nodup hr)
    refine hnone r' (Graph.get?_mem hr').1 ⟨?_, ?_, ?_⟩
    · rw [hlong.isa, hreference.isa]
    · rw [hlong.text? (by decide), hreference.path]
    · rw [hlong.text? (by decide), hreference.sourceTree]
  refine ⟨file, h', ?_, ?_, filesGrow_addObject hadd, ?_, hreference, fun l' hl' => ?_⟩
  · rw [run_add, hadd]
  · refine hadds.addObject hadd hh' hl hphase (.reference hid hreference hmissing) hisa (fun k hk => ?_) (hid ▸ hunused)
    simp only [madeKeys, List.mem_cons, not_or] at hk
    exact hothers k hk.1 (by simp [hk])
  · rw [Change.get?_addObject hadd, hid, hunused, if_pos rfl]
    rfl
  · rw [Graph.contains, Graph.contains, Change.get?_addObject hadd, hid,
      if_neg (Ne.symm (hfree.productId_ne hl hl')), Option.or_none]

/-- The phase of a link is one in the project, and is still there. -/
theorem Adds.get?_phase (hadds : Adds g library links h) {phase : String} (hphase : l.phaseId? g = some phase) :
    ∃ p o, g.get? phase = some p ∧ h.get? phase = some o ∧ o.id = phase ∧ o.isa = "PBXFrameworksBuildPhase" := by
  obtain ⟨p, hfind, rfl⟩ := Option.map_eq_some_iff.mp hphase
  have hkind : p.isa = "PBXFrameworksBuildPhase" := by simpa using List.find?_some hfind
  have hold : g.get? p.id = some p := by
    obtain ⟨ref, -, href⟩ := List.mem_filterMap.mp (List.mem_of_find?_eq_some hfind)
    rw [(Graph.get?_mem href).2, href]
  obtain ⟨new, o, ho, hlong, -⟩ := hadds.kept hold
  exact ⟨p, o, hold, ho, hlong.id, hlong.isa.trans hkind⟩

/-- An object that is not there is not listed: neither was it at first, nor is it by a new entry. -/
theorem Adds.notMem_refs (hadds : Adds g library links h) (hfree : HasFreeIds g library links) (hl : l ∈ links)
    (hunused : h.get? (l.id library) = none) {id : String} {p : Object} (hold : g.get? id = some p)
    (ho : h.get? id = some o) : l.id library ∉ o.refs "files" := by
  obtain ⟨new, o', ho', hlong, -, hnew⟩ := hadds.kept hold
  obtain rfl := Option.some.inj (ho'.symm.trans ho)
  rw [hlong.refs_files, List.mem_append, not_or, List.map_map]
  refine ⟨hfree.unlisted _ (buildSeed_mem hl) p (Graph.get?_mem hold).1, fun hin => ?_⟩
  obtain ⟨l', hl', hsame⟩ := List.mem_map.mp hin
  have hcontains := (hnew l' hl').2.2
  rw [← l'.value_entry, show (l'.entry library).value = l.id library from hsame, Graph.contains, hunused] at hcontains
  contradiction

/-- The project with another entry in a phase. -/
theorem Adds.appendEntry (hadds : Adds g library links h) (hl : l ∈ links) {phase : String}
    (hphase : l.phaseId? g = some phase) (ho : h.get? phase = some o) (hnot : l.id library ∉ o.refs "files")
    (hcontains : h.contains (l.id library) = true) :
    Adds g library links (h.appendRef phase "files" (l.id library) (some (entryName l.product))).1 := by
  obtain ⟨p, o', hold, ho', hid, hisa⟩ := hadds.get?_phase hphase
  obtain rfl := Option.some.inj (ho'.symm.trans ho)
  have hgrow := filesGrow_appendRef ho hisa (l.id library) (some (entryName l.product))
  have hget (id : String) := Graph.get?_appendRef "files" (l.id library) (some (entryName l.product)) ho id
  rw [if_neg (by rwa [Object.hasRef, List.contains_iff_mem])] at hget
  refine ⟨?_, hadds.indexed.appendRef (by decide) _ _ _, fun {id q} hq => ?_, fun {id q} hnone hq => ?_⟩
  · rw [Graph.appendRef_eq, hadds.frame]
  · obtain ⟨new, q', hq', hlong, hnodup, hnew⟩ := hadds.kept hq
    have hnew' : ∀ l' ∈ new, l' ∈ links ∧ l'.phaseId? g = some id ∧
        (h.appendRef phase "files" (l.id library) (some (entryName l.product))).1.contains (l'.id library) = true :=
      fun l' hl' => ⟨(hnew l' hl').1, (hnew l' hl').2.1, hgrow.contains (hnew l' hl').2.2⟩
    by_cases hid : id = phase
    · subst hid
      obtain rfl := Option.some.inj (hq'.symm.trans ho)
      refine ⟨new ++ [l], _, by rw [hget, if_pos rfl], ?_, ?_, fun l' hl' => ?_⟩
      · rw [List.map_append]
        exact hlong.trans (lengthens_appendRef q' _)
      · rw [hlong.refs_files, List.map_map, List.mem_append, not_or] at hnot
        rw [List.map_append, List.map_singleton]
        refine List.nodup_append.mpr ⟨hnodup, List.nodup_singleton _, fun a ha b hb => ?_⟩
        obtain rfl := List.mem_singleton.mp hb
        rintro rfl
        obtain ⟨l', hl', hsame⟩ := List.mem_map.mp ha
        exact hnot.2 (List.mem_map.mpr ⟨l', hl', (l'.value_entry library).trans hsame⟩)
      · rcases List.mem_append.mp hl' with hl' | hl'
        · exact hnew' l' hl'
        · obtain rfl := List.mem_singleton.mp hl'
          exact ⟨hl, hphase, hgrow.contains hcontains⟩
    · exact ⟨new, q', by rw [hget, if_neg hid, hq'], hlong, hnodup, hnew'⟩
  · have hid : id ≠ phase := by
      rintro rfl
      rw [hold] at hnone
      contradiction
    rw [hget, if_neg hid] at hq
    exact hadds.fresh hnone hq

/-- A build file is made, with a reference to the file as its only field, and is put into the phase. -/
theorem exists_addBuildFile (h : Graph) (phase file name seed : String) :
    ∃ h₁ buildFile, h.addObject "PBXBuildFile" [("fileRef", .written ⟨file, some name⟩)] (some (entryName name)) seed =
        .ok (h₁, buildFile) ∧
      buildFile.id = h.newId seed ∧ buildFile.isa = "PBXBuildFile" ∧ h₁ = { h with
        objects := h.objects ++ [buildFile]
        index := indexInsert "PBXBuildFile" buildFile.id h.index
        added := h.added ++ [buildFile.id] } ∧
      buildFile.field? "fileRef" = some (.scalar ⟨file, some name⟩) ∧
      (∀ k, k ≠ "isa" → k ≠ "fileRef" → buildFile.field? k = none) ∧
      (addBuildFile phase file name seed).run h =
        (.ok (), (h₁.appendRef phase "files" buildFile.id (some (entryName name))).1) := by
  obtain ⟨h₁, buildFile, hadd⟩ := h.exists_addObject "PBXBuildFile" [("fileRef", .written ⟨file, some name⟩)]
    (some (entryName name)) seed (by simp) (by simp only [List.forall_mem_cons]; exact ⟨⟨_, rfl⟩, by simp⟩)
  obtain ⟨hid, hisa, hh₁⟩ := Graph.eq_of_addObject hadd (by simp) (by decide)
  obtain ⟨hthere, hothers⟩ := field?_added hadd (by simp)
  simp only [List.forall_mem_cons] at hthere
  obtain ⟨⟨fileRef, hfileRef, hfield⟩, -⟩ := hthere
  obtain rfl := Except.ok.inj hfileRef
  refine ⟨h₁, buildFile, hadd, hid, hisa, hh₁, hfield, fun k hk hk' => hothers k hk (by simpa using hk'), ?_⟩
  have hmade : (add "PBXBuildFile" [("fileRef", .written ⟨file, some name⟩)] (some (entryName name)) seed).run h =
      (.ok buildFile, h₁) := by rw [run_add, hadd]
  rw [addBuildFile, ← entryName, run_bind_ok hmade]
  rfl

/-- A build file for the link is made and listed in its phase. -/
theorem Adds.addBuildFile (hadds : Adds g library links h) (hfree : HasFreeIds g library links) (hl : l ∈ links)
    {phase : String} (hphase : l.phaseId? g = some phase) (hunused : h.get? (l.id library) = none) {file : Object}
    (hfile : h.get? file.id = some file) (hreference : IsProductReference l.product file) :
    ∃ h', (addBuildFile phase file.id l.product (buildSeed library l.product l.target.id)).run h = (.ok (), h') ∧
      Adds g library links h' ∧ FilesGrow h h' ∧ Stands g library l h' ∧
      ∀ id, id ≠ l.id library → h'.contains id = h.contains id := by
  obtain ⟨h₁, buildFile, hadd, hid, hisa, hh₁, hfileRef, hothers, hrun⟩ :=
    exists_addBuildFile h phase file.id l.product (buildSeed library l.product l.target.id)
  rw [Graph.newId_of_free hunused, ← Link.id] at hid
  have hadds₁ : Adds g library links h₁ := by
    refine hadds.addObject hadd hh₁ hl (by rw [hphase]; rfl) (.buildFile hid hisa) hisa (fun k hk => ?_) (hid ▸ hunused)
    simp only [madeKeys, List.mem_cons, not_or] at hk
    exact hothers k hk.1 (by simp [hk])
  obtain ⟨p, o, hold, ho, hphaseId, hkind⟩ := hadds.get?_phase hphase
  have hget₁ (id : String) := Change.get?_addObject hadd id
  have ho₁ : h₁.get? phase = some o := by rw [hget₁, ho, Option.some_or]
  have hmade : h₁.get? (l.id library) = some buildFile := by rw [hget₁, hunused, if_pos hid.symm]; rfl
  have hnot := hadds.notMem_refs hfree hl hunused hold ho
  have hadds₂ := hadds₁.appendEntry hl hphase ho₁ hnot (by rw [Graph.contains, hmade]; rfl)
  have hget (id : String) := Graph.get?_appendRef "files" (l.id library) (some (entryName l.product)) ho₁ id
  rw [if_neg (by rwa [Object.hasRef, List.contains_iff_mem])] at hget
  have hne : l.id library ≠ phase := by
    rintro rfl
    rw [ho] at hunused
    contradiction
  have hfilePhase : file.id ≠ phase := by
    rintro rfl
    rw [ho] at hfile
    rw [Option.some.inj hfile, hreference.isa] at hkind
    contradiction
  refine ⟨_, by rw [hrun, hid], hadds₂, (filesGrow_addObject hadd).trans (filesGrow_appendRef ho₁ hkind _ _), ?_, fun id hother => ?_⟩
  · refine ⟨o.appendRef "files" (l.entry library), buildFile, file, ?_, ?_, ?_, ?_, hisa, hfileRef, ?_, hreference⟩
    · rw [hphase]
      exact congrArg some hphaseId.symm
    · rw [hget, if_pos (show (o.appendRef "files" (l.entry library)).id = phase from hphaseId)]
      rfl
    · rw [(lengthens_appendRef o _).refs_files, List.map_singleton, l.value_entry]
      simp
    · rw [hget, if_neg hne, hmade]
    · rw [hget, if_neg hfilePhase, hget₁, hfile, Option.some_or]
  · rw [Graph.contains, Graph.contains, hget]
    split
    next hphaseId => rw [hphaseId, ho]; rfl
    · rw [hget₁, if_neg (hid ▸ hother), Option.or_none]

end Ios
end ModuleLink
