import ModuleLink.Proofs.Android.GradleBlocks
import ModuleLink.Proofs.Android.MainBlocks
import ModuleLink.Proofs.Android.ResourceBlocks

/-!
The files of an app with the blocks of some libraries.  In each file the blocks of a part are a stack behind its place,
whatever there is of the other parts.
-/

namespace ModuleLink
namespace Android

open Patch Insertion Text Workspace

/-! ## The files -/

/-- The files of the app are different ones. -/
def FilesApart (app : App) (t : Tree) : Prop := ∀ f g : AppFile, f ≠ g → t.Apart (f.path app) (g.path app)

theorem filesApart_of_fourFiles {app : App} {t : Tree} (h : FourFiles t app) : FilesApart app t := by
  simp only [FourFiles, List.pairwise_cons, List.forall_mem_cons] at h
  obtain ⟨⟨h₁₂, h₁₃, h₁₄, -⟩, ⟨h₂₃, h₂₄, -⟩, ⟨h₃₄, -⟩, -⟩ := h
  intro f g hne
  cases f <;> cases g
  all_goals first
    | exact absurd rfl hne
    | assumption
    | exact Tree.Apart.symm ‹_›

/-- The files of the app hold these texts, and nothing else in the workspace is different from what it was. -/
structure Holds (app : App) (w₀ : Workspace) (texts : AppFile → List Char) (w : Workspace) : Prop where
  reads : ∀ f, w.tree.readText (f.path app) = .ok (String.ofList (texts f))
  others : ∀ q, (∀ f, w₀.tree.Apart (AppFile.path app f) q) → w.tree.read q = w₀.tree.read q
  locate : w.tree.locate = w₀.tree.locate
  here : w.tree.here = w₀.tree.here
  notices : w.notices = w₀.notices
  terminal : w.terminal = w₀.terminal

section Holds

variable {app : App} {w₀ w : Workspace} {texts : AppFile → List Char} {f : AppFile} {p : Insertion}
  {changed : List Char}

theorem Holds.write (h : Holds app w₀ texts w) (hapart : FilesApart app w₀.tree) {names : List String}
    {old : ByteArray} (hfile : w.tree.HasFile (f.path app) names old) (changed : List Char) :
    Holds app w₀ (Function.update texts f changed)
      { w with tree := w.tree.overwrite names (String.ofList changed).toUTF8 } := by
  refine ⟨fun g => ?_, fun q hq => ?_, ?_, h.here, h.notices, h.terminal⟩
  · by_cases hg : g = f
    · subst hg
      rw [Function.update_self]
      exact Tree.readText_of_hasFile (hfile.overwrite _)
    · rw [Function.update_of_ne hg, ← h.reads g]
      exact Tree.readText_overwrite_of_ne hfile ((hapart f g (Ne.symm hg)).congr h.locate names hfile.located)
  · rw [← h.others q hq]
    exact Tree.read_overwrite_of_ne hfile ((hq f).congr h.locate names hfile.located)
  · rw [← h.locate]
    exact funext (Tree.locate_overwrite hfile.node)

theorem Holds.run_insert_none (h : Holds app w₀ texts w) (hempty : p.isEmpty = false)
    (happly : p.apply (f.path app).toString (texts f) = .ok none) : (insert (f.path app) p).run w = (.ok [], w) := by
  obtain ⟨names, hfile⟩ := Tree.hasFile_of_readText (h.reads f)
  rw [run_insert_eq hempty hfile, String.toList_ofList, happly]

theorem Holds.run_insert_some (h : Holds app w₀ texts w) (hapart : FilesApart app w₀.tree) (hempty : p.isEmpty = false)
    (happly : p.apply (f.path app).toString (texts f) = .ok (some changed)) :
    ∃ w', (insert (f.path app) p).run w = (.ok [], w') ∧ Holds app w₀ (Function.update texts f changed) w' := by
  obtain ⟨names, hfile⟩ := Tree.hasFile_of_readText (h.reads f)
  refine ⟨_, ?_, h.write hapart hfile changed⟩
  rw [run_insert_eq hempty hfile, String.toList_ofList, happly]

theorem Holds.run_revertIn (h : Holds app w₀ texts w) (hapart : FilesApart app w₀.tree) (hempty : p.isEmpty = false)
    (hrevert : p.revert (texts f) = .ok (.removed changed)) :
    ∃ w', (p.revertIn (f.path app)).run w = (.ok true, w') ∧ Holds app w₀ (Function.update texts f changed) w' := by
  obtain ⟨names, hfile⟩ := Tree.hasFile_of_readText (h.reads f)
  exact ⟨_, run_revertIn_of_removed hempty hfile (by rw [String.toList_ofList, hrevert]), h.write hapart hfile changed⟩

end Holds

namespace Selection

variable {ι : Type} {s : Selection ι} {base : AppFile → List Char} {w₀ w : Workspace} {i k : ι}
  {part : Part} {linked : Part → List ι} {is : List ι}

/-- The blocks of a part for some libraries. -/
def blocks (s : Selection ι) (part : Part) (is : List ι) : List Char := is.flatMap (s.block part)

/-- The files with the blocks of the libraries that are linked, each part right behind its place. -/
def texts (s : Selection ι) (base : AppFile → List Char) (linked : Part → List ι) : AppFile → List Char
  | .settings => (Part.settings.anchor s.appName).behind (s.blocks .settings (linked .settings)) (base .settings)
  | .build => (Part.build.anchor s.appName).behind (s.blocks .build (linked .build)) (base .build)
  | .strings => (Part.strings.anchor s.appName).behind (s.blocks .strings (linked .strings)) (base .strings)
  | .main => (Part.package.anchor s.appName).behind (s.blocks .package (linked .package))
      ((Part.imports.anchor s.appName).behind (s.blocks .imports (linked .imports)) (base .main))

/-- The files with the libraries that are linked, each with all of its parts. -/
def linkedTexts (s : Selection ι) (base : AppFile → List Char) (is : List ι) : AppFile → List Char :=
  s.texts base fun _ => is

/-- The parts of a library with the files that they go into. -/
def placed (s : Selection ι) (i : ι) (part : Part) : Path × Insertion := (part.file.path s.app, s.insertion part i)

theorem insertions_eq (s : Selection ι) (i : ι) :
    insertions s.here (s.get i).name (s.get i).library (s.get i).params s.app = .ok (Part.all.map (s.placed i)) := by
  rw [insertions_of_text s.app_name (s.plain i).instance_, (s.plain i).importPath]
  rfl

/-- Files that libraries can be put into, and that hold nothing of the libraries of the selection. -/
structure IsBase (s : Selection ι) (w : Workspace) (base : AppFile → List Char) : Prop where
  here : w.tree.here = s.here
  apart : FourFiles w.tree s.app
  reads : ∀ f, w.tree.readText (f.path s.app) = .ok (String.ofList (base f))
  places : ∀ part : Part, ((part.anchor s.appName).places (base part.file)).length = 1
  fresh : ∀ part i, s.block part i ≠ [] → occursIn (s.block part i) (base part.file) = false
  entries : ∀ i, occursIn (entryStart (s.stem i)) (base .strings) = false
  patterns : ∀ i, hasDependency (s.get i).name (base .build) = false

/-! ## Stacks of blocks -/

theorem anchor_of_isMain {appName : String} (h : part.IsMain) : part.anchor appName = .literal part.needle := by
  rcases h with rfl | rfl <;> rfl

theorem exists_onlyPlace (h : s.IsBase w base) (part : Part) (hlines : ¬part.IsMain) :
    ∃ u m v, base part.file = u ++ m ++ v ∧ (part.anchor s.appName).OnlyPlace u m v := by
  have hne : ∀ x, (part.anchor s.appName).Piece x → x ≠ [] := by
    cases part with
    | settings => exact fun x hx => hx.ne_nil
    | build => exact fun x hx => hx.ne_nil
    | strings =>
      rintro x ⟨a, g, rfl, -, -⟩
      simp
    | package => exact absurd (.inl rfl) hlines
    | imports => exact absurd (.inr rfl) hlines
  obtain ⟨u, m, v, hbase, hplace⟩ := Anchor.exists_onlyPlace hne (h.places part)
  exact ⟨u, m, v, by rw [hbase, List.append_assoc], hplace⟩

/-- The other files do not depend on the blocks of a part. -/
theorem texts_update (base : AppFile → List Char) (linked : Part → List ι) (is : List ι) :
    s.texts base (Function.update linked part is) =
      Function.update (s.texts base linked) part.file (s.texts base (Function.update linked part is) part.file) := by
  funext f
  by_cases hf : f = part.file
  · subst hf
    rw [Function.update_self]
  · rw [Function.update_of_ne hf]
    cases part <;> cases f <;> first | exact absurd rfl hf | rfl

theorem behind_nil (a : Anchor) (content : List Char) : a.behind [] content = content := by
  rw [Anchor.behind]
  split
  · rw [List.append_nil, List.take_append_drop]
  · rfl

theorem holds_of_isBase (h : s.IsBase w base) : Holds s.app w (s.linkedTexts base []) w := by
  refine ⟨fun f => ?_, fun _ _ => rfl, rfl, rfl, rfl, rfl⟩
  have hnil : s.linkedTexts base [] f = base f := by
    cases f with
    | settings | build | strings => exact behind_nil _ _
    | main =>
      show Anchor.behind _ [] (Anchor.behind _ [] _) = _
      rw [behind_nil, behind_nil]
  rw [hnil]
  exact h.reads f

theorem block_eq_nil_iff : s.block part i = [] ↔ (s.insertion part i).isEmpty = true := by
  simp [block, Insertion.chars, Insertion.isEmpty]

variable [DecidableEq ι]

theorem exists_stack_lines (h : s.IsBase w base) (part : Part) (hlines : ¬part.IsMain) :
    ∃ pre post, base part.file = pre ++ post ∧ Stack (part.anchor s.appName) (s.block part) pre post := by
  obtain ⟨u, m, v, hbase, hplace⟩ := exists_onlyPlace h part hlines
  refine ⟨u ++ m, v, hbase, ?_⟩
  cases part with
  | settings =>
    refine stack_settings hplace fun i => ?_
    rw [← hbase]
    exact h.fresh .settings i (by rw [block_settings]; simp)
  | build =>
    refine stack_build hplace fun i => ?_
    rw [← hbase]
    exact h.fresh .build i isLine_block_build.ne_nil
  | strings =>
    refine stack_strings hplace fun i => ?_
    rw [← hbase]
    exact h.entries i
  | package => exact absurd (.inl rfl) hlines
  | imports => exact absurd (.inr rfl) hlines

/-- The main file is cut behind its two places, and the blocks stand in the cuts. -/
theorem exists_mainText (h : s.IsBase w base) :
    ∃ p q c₁ c₂ c₃, s.MainCut p q c₁ c₂ c₃ ∧
      ∀ linked, s.texts base linked .main = s.mainText p q c₁ c₂ c₃ (linked p) (linked q) := by
  have hplaces : ∀ p : Part, p.IsMain → ((Anchor.literal p.needle).places (base .main)).length = 1 := by
    rintro p (rfl | rfl)
    · exact h.places .package
    · exact h.places .imports
  have hfresh : ∀ p : Part, p.IsMain → ∀ i, occursIn (s.block p i) (base .main) = false := by
    rintro p (rfl | rfl) i
    · exact h.fresh .package i (isSealed_block (.inl rfl) i).ne_nil
    · exact h.fresh .imports i (isSealed_block (.inr rfl) i).ne_nil
  obtain ⟨c₁, c₂, c₃, hbase, hcut | hcut⟩ := exists_mainCut hplaces hfresh
  · refine ⟨_, _, c₁, c₂, c₃, hcut, fun linked => ?_⟩
    have himports := (hcut.stack_second []).behind (linked .imports)
    have hpackage := (hcut.stack_first (linked .imports)).behind (linked .package)
    show Anchor.behind (.literal Part.package.needle) (s.blocks .package (linked .package))
      (Anchor.behind (.literal Part.imports.needle) (s.blocks .imports (linked .imports)) (base .main)) = _
    simp only [List.flatMap_nil, List.nil_append, List.append_assoc] at himports
    rw [hbase, blocks, blocks, himports, hpackage, mainText]
  · refine ⟨_, _, c₁, c₂, c₃, hcut, fun linked => ?_⟩
    have himports := (hcut.stack_first []).behind (linked .imports)
    have hpackage := (hcut.stack_second (linked .imports)).behind (linked .package)
    show Anchor.behind (.literal Part.package.needle) (s.blocks .package (linked .package))
      (Anchor.behind (.literal Part.imports.needle) (s.blocks .imports (linked .imports)) (base .main)) = _
    simp only [List.flatMap_nil, List.nil_append, List.append_assoc] at himports hpackage
    rw [hbase, blocks, blocks, himports, hpackage, mainText]

/-- The blocks of a part are a stack in their file, whatever there is of the other parts. -/
theorem exists_stack (h : s.IsBase w base) (part : Part) (linked : Part → List ι) :
    ∃ pre post, Stack (part.anchor s.appName) (s.block part) pre post ∧
      ∀ is, s.texts base (Function.update linked part is) part.file = pre ++ (is.flatMap (s.block part) ++ post) := by
  by_cases hmain : part.IsMain
  · obtain ⟨p, q, c₁, c₂, c₃, hcut, htexts⟩ := exists_mainText h
    have hfile : part.file = .main := by rcases hmain with rfl | rfl <;> rfl
    have hpart : part = p ∨ part = q := by
      rcases hmain with rfl | rfl <;> rcases hcut.isMain with rfl | rfl <;> rcases hcut.isMain_other with rfl | rfl
      all_goals first
        | exact .inl rfl
        | exact .inr rfl
        | exact absurd rfl hcut.ne
    rw [anchor_of_isMain hmain, hfile]
    rcases hpart with rfl | rfl
    · refine ⟨_, _, hcut.stack_first (linked q), fun is => ?_⟩
      rw [htexts, Function.update_self, Function.update_of_ne hcut.ne.symm, mainText]
    · refine ⟨_, _, hcut.stack_second (linked p), fun is => ?_⟩
      rw [htexts, Function.update_self, Function.update_of_ne hcut.ne, mainText]
      simp only [List.append_assoc]
  · obtain ⟨pre, post, hbase, hstack⟩ := exists_stack_lines h part hmain
    refine ⟨pre, post, hstack, fun is => ?_⟩
    have htext : s.texts base (Function.update linked part is) part.file =
        (part.anchor s.appName).behind (s.blocks part (Function.update linked part is part)) (base part.file) := by
      cases part with
      | settings | build | strings => rfl
      | package => exact absurd (.inl rfl) hmain
      | imports => exact absurd (.inr rfl) hmain
    rw [htext, Function.update_self, hbase, blocks]
    exact hstack.behind is

end Selection

end Android
end ModuleLink
