import ModuleLink.Proofs.Android.LinkedTexts

/-!
Several libraries linked into one app and taken out again, in any order.  At any time the files of the app are what they
were in the beginning, with the blocks of the libraries that are linked, the last one first.
-/

namespace ModuleLink
namespace Android

open Patch Insertion Text Workspace

/-! ## Calls -/

section Calls

variable {ι : Type}

/-- A library is linked or unlinked. -/
inductive Call (ι : Type) where
  | link (i : ι)
  | unlink (i : ι)

def Call.run (s : Selection ι) : Call ι → Step (List String)
  | link i => register (s.get i).name (s.get i).library (s.get i).params s.app
  | unlink i => unregister (s.get i).name (s.get i).library s.app

variable [DecidableEq ι] {i : ι} {is : List ι}

/-- The libraries that are linked after one more. -/
def linkTo (i : ι) (is : List ι) : List ι := if i ∈ is then is else i :: is

theorem nodup_linkTo (h : is.Nodup) : (linkTo i is).Nodup := by
  rw [linkTo]
  split
  · exact h
  next hi => exact List.nodup_cons.mpr ⟨hi, h⟩

/-- The libraries that are linked after a call, the last one first. -/
def Call.apply (is : List ι) : Call ι → List ι
  | link i => linkTo i is
  | unlink i => is.erase i

def linkedAfter (calls : List (Call ι)) : List ι := calls.foldl Call.apply []

theorem Call.nodup_apply (hnodup : is.Nodup) (call : Call ι) : (call.apply is).Nodup := by
  cases call with
  | link i => exact nodup_linkTo hnodup
  | unlink i => exact hnodup.erase i

end Calls

namespace Selection

variable {ι : Type} [DecidableEq ι] {s : Selection ι} {base : AppFile → List Char} {w₀ w : Workspace} {i : ι}
  {part : Part} {linked : Part → List ι} {is : List ι}

/-! ## One part of one library -/

/-- The text of a file with other blocks of one part. -/
theorem exists_texts_update (h : s.IsBase w₀ base) (part : Part) (linked : Part → List ι) :
    ∃ pre post, Stack (part.anchor s.appName) (s.block part) pre post ∧
      s.texts base linked part.file = pre ++ ((linked part).flatMap (s.block part) ++ post) ∧
      ∀ is, s.texts base (Function.update linked part is) =
        Function.update (s.texts base linked) part.file (pre ++ (is.flatMap (s.block part) ++ post)) := by
  obtain ⟨pre, post, hstack, htext⟩ := exists_stack h part linked
  refine ⟨pre, post, hstack, ?_, fun is => ?_⟩
  · rw [← htext, Function.update_eq_self]
  · rw [texts_update, htext]

/-- Blocks that come to the same text leave the files alone. -/
theorem texts_update_of_eq (h : s.IsBase w₀ base)
    (hsame : is.flatMap (s.block part) = (linked part).flatMap (s.block part)) :
    s.texts base (Function.update linked part is) = s.texts base linked := by
  obtain ⟨pre, post, -, htext, hupdate⟩ := exists_texts_update h part linked
  rw [hupdate, hsame, ← htext, Function.update_eq_self]

/-- A part of a library is put into its file, unless it is there. -/
theorem run_insert (h : s.IsBase w₀ base) (hw : Holds s.app w₀ (s.texts base linked) w) (part : Part) (i : ι) :
    ∃ w', (insert (part.file.path s.app) (s.insertion part i)).run w = (.ok [], w') ∧
      Holds s.app w₀ (s.texts base (Function.update linked part (linkTo i (linked part)))) w' := by
  cases hempty : (s.insertion part i).isEmpty with
  | true =>
    have hblock : s.block part i = [] := block_eq_nil_iff.mpr hempty
    have hsame : (linkTo i (linked part)).flatMap (s.block part) = (linked part).flatMap (s.block part) := by
      rw [linkTo]
      split
      · rfl
      · rw [List.flatMap_cons, hblock, List.nil_append]
    refine ⟨w, ?_, ?_⟩
    · rw [insert, hempty]
      rfl
    · rw [texts_update_of_eq h hsame]
      exact hw
  | false =>
    obtain ⟨pre, post, hstack, htext, hupdate⟩ := exists_texts_update h part linked
    rw [linkTo]
    split
    next hi =>
      refine ⟨w, hw.run_insert_none hempty ?_, ?_⟩
      · rw [htext]
        exact hstack.apply_of_mem rfl hempty hi
      · rw [Function.update_eq_self]
        exact hw
    next hi =>
      rw [hupdate]
      refine hw.run_insert_some (filesApart_of_fourFiles h.apart) hempty ?_
      rw [htext]
      exact hstack.apply_of_notMem (s.isBehind i part) rfl hempty hi

/-- A part of a library is taken out of its file. -/
theorem run_revertIn (h : s.IsBase w₀ base) (hw : Holds s.app w₀ (s.texts base linked) w)
    (hnodup : (linked part).Nodup) (hi : i ∈ linked part) :
    ∃ b w', ((s.insertion part i).revertIn (part.file.path s.app)).run w = (.ok b, w') ∧
      Holds s.app w₀ (s.texts base (Function.update linked part ((linked part).erase i))) w' := by
  cases hempty : (s.insertion part i).isEmpty with
  | true =>
    have hblock : s.block part i = [] := block_eq_nil_iff.mpr hempty
    have hsame : ((linked part).erase i).flatMap (s.block part) = (linked part).flatMap (s.block part) := by
      obtain ⟨l₁, l₂, hl₁, hsplit, herase⟩ := List.exists_erase_eq hi
      rw [herase, hsplit]
      simp [hblock]
    refine ⟨false, w, run_revertIn_of_isIdle (.inl hempty), ?_⟩
    rw [texts_update_of_eq h hsame]
    exact hw
  | false =>
    obtain ⟨pre, post, hstack, htext, hupdate⟩ := exists_texts_update h part linked
    have hrevert := hstack.revert_of_mem (s.isBehind i part) rfl hempty hi hnodup
    rw [← htext] at hrevert
    obtain ⟨w', hrun, hw'⟩ := hw.run_revertIn (filesApart_of_fourFiles h.apart) hempty hrevert
    rw [hupdate]
    exact ⟨true, w', hrun, hw'⟩

/-- The text of a part is in its file if the library is linked. -/
theorem isApplied_eq (h : s.IsBase w₀ base) (hw : Holds s.app w₀ (s.texts base linked) w)
    (hempty : (s.insertion part i).isEmpty = false) :
    (s.insertion part i).isApplied w.tree (part.file.path s.app) = .ok (decide (i ∈ linked part)) := by
  obtain ⟨pre, post, hstack, htext, -⟩ := exists_texts_update h part linked
  rw [Insertion.isApplied, hempty, hw.reads, htext]
  simp only [Bool.false_eq_true, if_false, String.toList_ofList]
  congr 1
  rw [Bool.eq_iff_iff, hstack.isIn_iff rfl hempty, decide_eq_true_iff]

/-- Nothing of a part that is not there is in the files. -/
theorem isIdle_of_notMem (h : s.IsBase w₀ base) (hw : Holds s.app w₀ (s.texts base linked) w) (hi : i ∉ linked part) :
    (s.insertion part i).IsIdle (part.file.path s.app) w.tree := by
  cases hempty : (s.insertion part i).isEmpty with
  | true => exact .inl hempty
  | false =>
    right
    rw [isApplied_eq h hw hempty, decide_eq_false hi]

/-! ## All parts of one library -/

theorem run_inserts (h : s.IsBase w₀ base) (i : ι) (parts : List Part)
    (hw : Holds s.app w₀ (s.texts base linked) w) :
    ∃ w', ((parts.map (s.placed i)).mapM fun x => insert x.1 x.2).run w = (.ok (parts.map fun _ => []), w') ∧
      Holds s.app w₀
        (s.texts base (parts.foldl (fun l part => Function.update l part (linkTo i (l part))) linked)) w' := by
  induction parts generalizing linked w with
  | nil => exact ⟨w, rfl, hw⟩
  | cons part parts ih =>
    obtain ⟨w₁, hrun, hw₁⟩ := run_insert h hw part i
    obtain ⟨w₂, hrest, hw₂⟩ := ih hw₁
    refine ⟨w₂, ?_, hw₂⟩
    rw [List.map_cons, List.mapM_cons, placed, Attempt.run_bind_ok hrun, Attempt.run_bind_ok hrest]
    rfl

/-- What is not there of a library is not taken out. -/
theorem run_revertIn_erase (h : s.IsBase w₀ base) (hw : Holds s.app w₀ (s.texts base linked) w)
    (hnodup : (linked part).Nodup) {p : Insertion}
    (hp : p = s.insertion part i ∨ p.isEmpty = true ∧ i ∉ linked part) :
    ∃ b w', (p.revertIn (part.file.path s.app)).run w = (.ok b, w') ∧
      Holds s.app w₀ (s.texts base (Function.update linked part ((linked part).erase i))) w' := by
  by_cases hi : i ∈ linked part
  · obtain rfl := hp.resolve_right fun hp => hp.2 hi
    exact run_revertIn h hw hnodup hi
  · have hidle : p.IsIdle (part.file.path s.app) w.tree := by
      rcases hp with rfl | ⟨hempty, -⟩
      · exact isIdle_of_notMem h hw hi
      · exact .inl hempty
    refine ⟨false, w, run_revertIn_of_isIdle hidle, ?_⟩
    rw [List.erase_of_not_mem hi, Function.update_eq_self]
    exact hw

theorem run_reverts (h : s.IsBase w₀ base) {parts : List Part} (hparts : parts.Nodup) {ps : Part → Insertion}
    (hlinked : ∀ part ∈ parts, (linked part).Nodup ∧
      (ps part = s.insertion part i ∨ (ps part).isEmpty = true ∧ i ∉ linked part))
    (hw : Holds s.app w₀ (s.texts base linked) w) :
    ∃ w', (revertAll (parts.map fun part => (part.file.path s.app, ps part))).run w = (.ok ⟨⟩, w') ∧
      Holds s.app w₀
        (s.texts base (parts.foldl (fun l part => Function.update l part ((l part).erase i)) linked)) w' := by
  induction parts generalizing linked w with
  | nil => exact ⟨w, rfl, hw⟩
  | cons part parts ih =>
    rw [List.nodup_cons] at hparts
    rw [List.forall_mem_cons] at hlinked
    obtain ⟨b, w₁, hrun, hw₁⟩ := run_revertIn_erase h hw hlinked.1.1 hlinked.1.2
    have hrest : ∀ q ∈ parts, (Function.update linked part ((linked part).erase i) q).Nodup ∧
        (ps q = s.insertion q i ∨
          (ps q).isEmpty = true ∧ i ∉ Function.update linked part ((linked part).erase i) q) := by
      intro q hq
      have hne : q ≠ part := fun e => hparts.1 (e ▸ hq)
      rw [Function.update_of_ne hne]
      exact hlinked.2 q hq
    obtain ⟨w₂, hrest, hw₂⟩ := ih hparts.2 hrest hw₁
    refine ⟨w₂, ?_, hw₂⟩
    rw [List.map_cons, revertAll, Attempt.run_bind_ok hrun]
    exact hrest

/-- A library is linked, and nothing is left to do by hand. -/
theorem run_register (h : s.IsBase w₀ base) (hw : Holds s.app w₀ (s.linkedTexts base is) w) (i : ι) :
    ∃ w', (register (s.get i).name (s.get i).library (s.get i).params s.app).run w = (.ok [], w') ∧
      Holds s.app w₀ (s.linkedTexts base (linkTo i is)) w' := by
  have hlook : (look fun t => insertions t.here (s.get i).name (s.get i).library (s.get i).params s.app).run w =
      (.ok (Part.all.map (s.placed i)), w) := by
    rw [run_look, hw.here, h.here, insertions_eq]
  have hall : Part.all.foldl (fun l part => Function.update l part (linkTo i (l part))) (fun _ => is) =
      fun _ => linkTo i is := by
    funext part
    cases part <;> rfl
  obtain ⟨w', hrun, hw'⟩ := run_inserts h i Part.all hw
  rw [hall] at hw'
  refine ⟨w', ?_, hw'⟩
  rw [register, Attempt.run_bind_ok hlook]
  exact Attempt.run_bind_ok hrun

/-- The params of a library are read back while they are there. -/
theorem moduleParams_eq (h : s.IsBase w₀ base) (hw : Holds s.app w₀ (s.texts base linked) w)
    (hnodup : (linked .strings).Nodup) (i : ι) :
    moduleParams w.tree s.app.strings (s.stem i) = .ok (if i ∈ linked .strings then (s.get i).params else []) := by
  obtain ⟨u, m, v, hbase, hplace⟩ := exists_onlyPlace h .strings (by rintro (h | h) <;> contradiction)
  have hread : w.tree.readText s.app.strings = .ok (String.ofList (s.texts base linked .strings)) := hw.reads .strings
  have htext : s.texts base linked .strings = u ++ m ++ ((linked .strings).flatMap (s.block .strings) ++ v) := by
    show Anchor.behind (Part.strings.anchor s.appName) (s.blocks .strings (linked .strings)) (base .strings) = _
    rw [show base .strings = u ++ m ++ v from hbase, List.append_assoc, hplace.behind, blocks, List.append_assoc]
  have hfresh := h.entries i
  rw [show base .strings = u ++ m ++ v from hbase] at hfresh
  rw [moduleParams, hread]
  simp only [String.toList_ofList]
  rw [htext, readParams_blocks hplace hfresh hnodup]

/-! ## Libraries that are taken out -/

/-- The parts that unlinking looks for, with the params that are read back. -/
def present (s : Selection ι) (linked : Part → List ι) (i : ι) : Part → Insertion
  | .strings => stringsInsertion (if i ∈ linked .strings then (s.get i).params else []) (s.stem i)
  | part => s.insertion part i

theorem present_cases (s : Selection ι) (linked : Part → List ι) (i : ι) (part : Part) :
    s.present linked i part = s.insertion part i ∨ (s.present linked i part).isEmpty = true ∧ i ∉ linked part := by
  cases part with
  | strings =>
    show stringsInsertion _ _ = s.insertion .strings i ∨ (stringsInsertion _ _).isEmpty = true ∧ _
    split
    · exact .inl rfl
    next hi => exact .inr ⟨stringsInsertion_isEmpty_iff.mpr rfl, hi⟩
  | settings | build | package | imports => exact .inl rfl

theorem presentInsertions_parts (h : s.IsBase w₀ base) (hw : Holds s.app w₀ (s.texts base linked) w)
    (hnodup : (linked .strings).Nodup) (i : ι) :
    presentInsertions w.tree (s.get i).name (s.get i).library s.app =
      .ok (Part.all.map fun part => (part.file.path s.app, s.present linked i part)) := by
  have hparams := moduleParams_eq h hw hnodup i
  have hpackage (params : Answers) :
      packageInsertion (s.get i).instanceText params (s.stem i) = s.insertion .package i := by
    show packageInsertion _ _ _ = packageInsertion _ _ _
    rw [packageInsertion, packageInsertion, fill_instanceText, fill_instanceText]
  rw [presentInsertions_eq _ _ hparams, hw.here, h.here, insertions_of_text s.app_name (s.plain i).instance_,
    (s.plain i).importPath]
  show Except.ok [_, _, _, (_, packageInsertion (s.get i).instanceText _ (s.stem i)), _] = _
  rw [hpackage]
  rfl

/-- Whatever parts of a library are in the files, unlinking takes them out and leaves the rest. -/
theorem run_unregister_parts (h : s.IsBase w₀ base) (hw : Holds s.app w₀ (s.texts base linked) w)
    (hnodup : ∀ part, (linked part).Nodup) (i : ι) :
    ∃ w', (unregister (s.get i).name (s.get i).library s.app).run w = (.ok [], w') ∧
      Holds s.app w₀ (s.texts base fun part => (linked part).erase i) w' := by
  have hparts : Part.all.reverse.Nodup := by decide
  obtain ⟨w', hrun, hw'⟩ := run_reverts h hparts (fun part _ => ⟨hnodup part, s.present_cases linked i part⟩) hw
  have hall : Part.all.reverse.foldl (fun l part => Function.update l part ((l part).erase i)) linked =
      fun part => (linked part).erase i := by
    funext part
    cases part <;> rfl
  rw [hall] at hw'
  rw [List.map_reverse] at hrun
  refine ⟨w', ?_, hw'⟩
  rw [Android.run_unregister (presentInsertions_parts h hw (hnodup .strings) i), Attempt.run_bind_ok hrun]
  rfl

/-! ## Libraries that are not linked -/

/-- A library that is not linked comes to files that hold nothing of it. -/
theorem freshInTurn_of_notMem (h : s.IsBase w₀ base) {parts : List Part} (hparts : parts.Nodup)
    (hi : ∀ part ∈ parts, i ∉ linked part) (hw : Holds s.app w₀ (s.texts base linked) w) :
    FreshInTurn (parts.map (s.placed i)) w := by
  induction parts generalizing linked w with
  | nil => exact trivial
  | cons part parts ih =>
    rw [List.nodup_cons] at hparts
    rw [List.forall_mem_cons] at hi
    refine ⟨?_, ?_⟩
    · show (s.insertion part i).isEmpty = true ∨ _
      cases hempty : (s.insertion part i).isEmpty with
      | true => exact .inl rfl
      | false => exact .inr (by rw [isApplied_eq h hw hempty, decide_eq_false hi.1])
    · obtain ⟨w', hrun, hw'⟩ := run_insert h hw part i
      show FreshInTurn _ ((insert (part.file.path s.app) (s.insertion part i)).run w).2
      rw [hrun]
      refine ih hparts.2 (fun q hq => ?_) hw'
      have hne : q ≠ part := fun e => hparts.1 (e ▸ hq)
      rw [Function.update_of_ne hne]
      exact hi.2 q hq

/-! ## Recognising libraries -/

theorem isInstalled_eq (h : s.IsBase w₀ base) (hw : Holds s.app w₀ (s.texts base linked) w) (i : ι) :
    isInstalled w.tree s.app (s.get i).name = .ok (decide (i ∈ linked .build)) := by
  obtain ⟨u, m, v, hbase, hplace⟩ := exists_onlyPlace h .build (by rintro (h | h) <;> contradiction)
  have hread : w.tree.readText s.app.buildGradle = .ok (String.ofList (s.texts base linked .build)) := hw.reads .build
  have htext : s.texts base linked .build = u ++ m ++ ((linked .build).flatMap (s.block .build) ++ v) := by
    show Anchor.behind (Part.build.anchor s.appName) (s.blocks .build (linked .build)) (base .build) = _
    rw [show base .build = u ++ m ++ v from hbase, List.append_assoc, hplace.behind, blocks, List.append_assoc]
  have hpattern := h.patterns i
  rw [show base .build = u ++ m ++ v from hbase] at hpattern
  rw [isInstalled, hread]
  simp only [String.toList_ofList]
  congr 1
  rw [Bool.eq_iff_iff, htext, hasDependency_iff hplace hpattern, decide_eq_true_iff]

theorem anyM_eq_false {α : Type} {f : α → Except Fault Bool} {xs : List α} (h : ∀ x ∈ xs, f x = .ok false) :
    xs.anyM f = .ok false := by
  induction xs with
  | nil => rfl
  | cons x xs ih =>
    rw [List.forall_mem_cons] at h
    rw [List.anyM, h.1]
    exact ih h.2

/-- A library of which no part is there is not recognised. -/
theorem hasRegistration_of_notMem (h : s.IsBase w₀ base) (hw : Holds s.app w₀ (s.texts base linked) w)
    (hnodup : (linked .strings).Nodup) (hi : ∀ part, i ∉ linked part) :
    hasRegistration w.tree s.app (s.get i).name (s.get i).library = .ok false := by
  rw [hasRegistration, isInstalled_eq h hw, decide_eq_false (hi .build), presentInsertions_parts h hw hnodup]
  refine anyM_eq_false fun x hx => ?_
  obtain ⟨part, -, rfl⟩ := List.mem_map.mp hx
  show (if (s.present linked i part).isEmpty then pure false
    else (s.present linked i part).isApplied w.tree (part.file.path s.app)) = .ok false
  split
  · rfl
  next hempty =>
    have hpart := (s.present_cases linked i part).resolve_right fun hp => hempty hp.1
    rw [hpart] at hempty ⊢
    exact (isIdle_of_notMem h hw (hi part)).resolve_left hempty

theorem hasRegistration_eq (h : s.IsBase w₀ base) (hw : Holds s.app w₀ (s.linkedTexts base is) w) (hnodup : is.Nodup)
    (i : ι) : hasRegistration w.tree s.app (s.get i).name (s.get i).library = .ok (decide (i ∈ is)) := by
  by_cases hi : i ∈ is
  · rw [hasRegistration, isInstalled_eq h hw, decide_eq_true hi]
    rfl
  · rw [hasRegistration_of_notMem h hw hnodup fun _ => hi, decide_eq_false hi]

/-- The files of the app hold parts of the libraries, whatever parts these are, and no other trace of them. -/
def HoldsParts (s : Selection ι) (w : Workspace) : Prop :=
  ∃ base w₀ linked, s.IsBase w₀ base ∧ Holds s.app w₀ (s.texts base linked) w ∧ ∀ part, (linked part).Nodup

/-- A library is not recognised any more when its parts are taken out, and those of other libraries stay. -/
theorem hasRegistration_of_unregister (h : s.HoldsParts w) (i : ι) :
    ∃ w', (unregister (s.get i).name (s.get i).library s.app).run w = (.ok [], w') ∧
      hasRegistration w'.tree s.app (s.get i).name (s.get i).library = .ok false ∧ s.HoldsParts w' := by
  obtain ⟨base, w₀, linked, hbase, hw, hnodup⟩ := h
  obtain ⟨w', hrun, hw'⟩ := run_unregister_parts hbase hw hnodup i
  have hnodup' (part : Part) : ((linked part).erase i).Nodup := (hnodup part).erase i
  exact ⟨w', hrun, hasRegistration_of_notMem hbase hw' (hnodup' .strings) fun part => (hnodup part).not_mem_erase,
    base, w₀, _, hbase, hw', hnodup'⟩

/-! ## Runs -/

/-- One call leads from files with the linked libraries to files with the linked libraries. -/
theorem run_call (h : s.IsBase w₀ base) (hw : Holds s.app w₀ (s.linkedTexts base is) w) (hnodup : is.Nodup)
    (call : Call ι) :
    ∃ w', (call.run s).run w = (.ok [], w') ∧ Holds s.app w₀ (s.linkedTexts base (call.apply is)) w' := by
  cases call with
  | link i => exact run_register h hw i
  | unlink i => exact run_unregister_parts h hw (fun _ => hnodup) i

theorem run_calls_from (h : s.IsBase w₀ base) (calls : List (Call ι)) (hw : Holds s.app w₀ (s.linkedTexts base is) w)
    (hnodup : is.Nodup) :
    ∃ w', (calls.mapM (Call.run s)).run w = (.ok (calls.map fun _ => []), w') ∧
      Holds s.app w₀ (s.linkedTexts base (calls.foldl Call.apply is)) w' ∧ (calls.foldl Call.apply is).Nodup := by
  induction calls generalizing is w with
  | nil => exact ⟨w, rfl, hw, hnodup⟩
  | cons call calls ih =>
    obtain ⟨w₁, hrun, hw₁⟩ := run_call h hw hnodup call
    obtain ⟨w₂, hrest, hw₂, hnodup₂⟩ := ih hw₁ (Call.nodup_apply hnodup call)
    refine ⟨w₂, ?_, hw₂, hnodup₂⟩
    rw [List.mapM_cons, Attempt.run_bind_ok hrun, Attempt.run_bind_ok hrest]
    rfl

/-- Libraries are linked and unlinked in any order, and nothing is ever left to do by hand.  Behind every run the files
are those from the beginning with the blocks of the libraries that are linked, the last one first, each part right
behind its place; nothing else in the workspace has changed; and exactly these libraries are recognised. -/
theorem run_calls (h : s.IsBase w base) (calls : List (Call ι)) :
    ∃ w', (calls.mapM (Call.run s)).run w = (.ok (calls.map fun _ => []), w') ∧
      Holds s.app w (s.linkedTexts base (linkedAfter calls)) w' ∧
      ∀ i, isInstalled w'.tree s.app (s.get i).name = .ok (decide (i ∈ linkedAfter calls)) ∧
        hasRegistration w'.tree s.app (s.get i).name (s.get i).library = .ok (decide (i ∈ linkedAfter calls)) := by
  obtain ⟨w', hrun, hw', hnodup⟩ := run_calls_from h calls (holds_of_isBase h) List.nodup_nil
  exact ⟨w', hrun, hw', fun i => ⟨isInstalled_eq h hw' i, hasRegistration_eq h hw' hnodup i⟩⟩

/-! ## Two libraries in an app -/

/-- A library that takes a key, and one with a scope in its name. -/
def sampleDependency : Bool → Dependency
  | false => ⟨"foo", fooLibrary "new Foo()", [("key", "1 < 2")], "Foo", "com.foo"⟩
  | true => ⟨"@scope/bar", { fooLibrary "new Bar()" with importPath := .text "import com.bar.Bar;" }, [], "Bar", "com.bar"⟩

theorem isPlain_sampleDependency (i : Bool) : (sampleDependency i).IsPlain := by
  have hkey : IsParamName "key" := ⟨by decide, List.all_eq_true.mp (by decide)⟩
  have hparams : ∀ params, params = [] ∨ params = [("key", "1 < 2")] → WellNamed params := by
    rintro params (rfl | rfl)
    · exact ⟨by simp, by simp⟩
    · exact ⟨by simpa using hkey, by simp⟩
  have hpath (path : String) (h : (path.toList.all fun c => isWord c || c == '.') = true) :
      ∀ c ∈ path.toList, isWord c = true ∨ c = '.' := fun c hc => by simpa using List.all_eq_true.mp h c hc
  cases i with
  | false =>
    exact ⟨List.all_eq_true.mp (by decide), hparams _ (.inr rfl), rfl, rfl, List.all_eq_true.mp (by decide),
      hpath "com.foo" (by decide), by decide, by decide +kernel⟩
  | true =>
    exact ⟨List.all_eq_true.mp (by decide), hparams _ (.inl rfl), rfl, rfl, List.all_eq_true.mp (by decide),
      hpath "com.bar" (by decide), by decide, by decide +kernel⟩

def sampleSelection : Selection Bool where
  app := shortApp
  appName := "app"
  here := ⟨"/", []⟩
  get := sampleDependency
  app_name := rfl
  appName_line := by decide
  plain := isPlain_sampleDependency
  sources_line := by decide +kernel
  project_ne := by decide +kernel
  project_injective := by intro i j; cases i <;> cases j <;> decide +kernel
  stem_injective := by intro i j; cases i <;> cases j <;> decide +kernel
  class_injective := by intro i j; cases i <;> cases j <;> decide +kernel

def sampleBase : AppFile → List Char
  | .settings => "include ':app'\n".toList
  | .build => "dependencies \x7b\n".toList
  | .strings => "<resources>\n".toList
  | .main => "import com.facebook.react.ReactApplication;\nnew MainReactPackage()".toList

theorem isBase_sample : sampleSelection.IsBase (shortWorkspace "<resources>\n") sampleBase := by
  refine ⟨rfl, by decide +kernel, fun f => ?_, fun part => ?_, fun part i hne => ?_, by decide +kernel, by decide +kernel⟩
  · cases f <;> decide +kernel
  · cases part <;> decide +kernel
  · by_cases hempty : part = .strings ∧ i = true
    · obtain ⟨rfl, rfl⟩ := hempty
      exact absurd (by decide +kernel) hne
    · cases part <;> cases i <;> first | exact absurd ⟨rfl, rfl⟩ hempty | decide +kernel

/-- Two libraries are linked, and the first one is unlinked. -/
theorem run_calls_sample :
    ∃ w', ([.link false, .link true, .unlink false].mapM (Call.run sampleSelection)).run
        (shortWorkspace "<resources>\n") = (.ok [[], [], []], w') ∧
      w'.tree.readText shortApp.strings = .ok "<resources>\n" ∧
      w'.tree.readText shortApp.buildGradle = .ok "dependencies \x7b\n    implementation project(':@scope_bar')\n" ∧
      hasRegistration w'.tree shortApp "@scope/bar" (sampleDependency true).library = .ok true := by
  obtain ⟨w', hrun, hw', hlinked⟩ := run_calls isBase_sample [.link false, .link true, .unlink false]
  have hstrings : String.ofList (sampleSelection.linkedTexts sampleBase [true] .strings) = "<resources>\n" := by
    decide +kernel
  have hbuild : String.ofList (sampleSelection.linkedTexts sampleBase [true] .build) =
      "dependencies \x7b\n    implementation project(':@scope_bar')\n" := by
    decide +kernel
  refine ⟨w', hrun, ?_, ?_, (hlinked true).2⟩
  · rw [← hstrings]
    exact hw'.reads .strings
  · rw [← hbuild]
    exact hw'.reads .build

end Selection

end Android
end ModuleLink
