import Mathlib
import ModuleLink.Proofs.Android.Registration
import ModuleLink.Proofs.Patch.Inverse

/-!
Names that params are read back by.  An entry is written for every name and found for names of word characters only, so
params come back exactly if their names are such.
-/

namespace ModuleLink
namespace Android

open Patch Insertion Workspace

variable {stem : String} {content : List Char} {params : Answers} {w w' : Workspace}

/-! ## Names that are read -/

theorem isParamName_of_entryAt? {e : String × String × Nat} (h : entryAt? stem content = some e) :
    IsParamName e.1 := by
  obtain ⟨rest, -, h⟩ := Option.bind_eq_some_iff.mp h
  simp only at h
  split at h
  · contradiction
  next hname =>
    obtain ⟨tail, -, h⟩ := Option.bind_eq_some_iff.mp h
    obtain ⟨body, -, h⟩ := Option.bind_eq_some_iff.mp h
    obtain rfl := Option.some.inj h
    refine ⟨fun hempty => hname ?_, fun c hc => ?_⟩
    · have hchars := congrArg String.toList hempty
      rw [String.toList_ofList] at hchars
      rw [hchars]
      rfl
    · rw [String.toList_ofList] at hc
      exact List.all_eq_true.mp List.all_takeWhile c hc

theorem isParamName_of_mem_entriesFrom (busy : Nat) (cs : List Char) :
    ∀ e ∈ entriesFrom stem busy cs, IsParamName e.1 := by
  fun_induction entriesFrom stem busy cs with
  | case1 => simp
  | case2 k c cs ih => exact ih
  | case3 c cs name value n hentry ih =>
    rw [List.forall_mem_cons]
    exact ⟨isParamName_of_entryAt? hentry, ih⟩
  | case4 c cs hnone ih => exact ih

theorem isParamName_of_mem_readParams : ∀ p ∈ readParams stem content, IsParamName p.1 := by
  intro p hp
  rcases Answers.mem_foldl_record hp with h | h
  · exact isParamName_of_mem_entriesFrom 0 content p h
  · contradiction

theorem isParamName_of_moduleParams {t : Tree} {resources : Path} (h : moduleParams t resources stem = .ok params) :
    ∀ p ∈ params, IsParamName p.1 := by
  rw [moduleParams] at h
  split at h
  · rw [← Except.ok.inj h]
    exact isParamName_of_mem_readParams
  · rw [← Except.ok.inj h]
    simp
  · contradiction

/-! ## Params in a resource file -/

/-- Params that were put into a resource file without an entry of the library are read back, names, values and order,
exactly if all their names are made of word characters. -/
theorem moduleParams_of_applyTo_iff {name : String} {resources : Path}
    (hnone : HoldsNoEntry w.tree resources (camelCase name)) (hdistinct : (params.map (·.1)).Nodup)
    (h : ((stringsInsertion params (camelCase name)).applyTo resources).run w = (.ok true, w')) :
    moduleParams w'.tree resources (camelCase name) = .ok params ↔ ∀ p ∈ params, IsParamName p.1 :=
  ⟨isParamName_of_moduleParams, fun hnames =>
    moduleParams_of_madeIn ⟨hnames, hdistinct⟩ (newline_notMem_camelCase name) hnone (IsBehind.madeIn_of_applyTo ⟨rfl, rfl⟩ h)⟩

/-- Markup, a line end and an empty value come back. -/
theorem moduleParams_of_applyTo_keyed :
    ∃ w', ((stringsInsertion [("key", "1 < 2 &\n"), ("url", "")] (camelCase "foo")).applyTo shortApp.strings).run
        (shortWorkspace "<resources>\n") = (.ok true, w') ∧
      moduleParams w'.tree shortApp.strings (camelCase "foo") = .ok [("key", "1 < 2 &\n"), ("url", "")] := by
  have hnone : HoldsNoEntry (shortWorkspace "<resources>\n").tree shortApp.strings (camelCase "foo") :=
    holdsNoEntry_of_readText "<resources>\n" (by decide +kernel) (by decide +kernel)
  have hok : (((stringsInsertion [("key", "1 < 2 &\n"), ("url", "")] (camelCase "foo")).applyTo shortApp.strings).run
      (shortWorkspace "<resources>\n")).1 = .ok true := by decide +kernel
  have hrun := Attempt.run_eq_of_fst hok
  refine ⟨_, hrun, (moduleParams_of_applyTo_iff hnone (by decide) hrun).mpr fun p hp => ?_⟩
  rcases List.mem_cons.mp hp with rfl | hp
  · exact ⟨by decide, List.all_eq_true.mp (by decide)⟩
  · obtain rfl := List.mem_singleton.mp hp
    exact ⟨by decide, List.all_eq_true.mp (by decide)⟩

/-- An entry whose name holds a hyphen is not found again. -/
theorem moduleParams_of_applyTo_hyphen :
    ∃ w', ((stringsInsertion [("api-key", "1")] (camelCase "foo")).applyTo shortApp.strings).run
        (shortWorkspace "<resources>\n") = (.ok true, w') ∧
      moduleParams w'.tree shortApp.strings (camelCase "foo") = .ok [] := by
  have hok : (((stringsInsertion [("api-key", "1")] (camelCase "foo")).applyTo shortApp.strings).run
      (shortWorkspace "<resources>\n")).1 = .ok true := by decide +kernel
  exact ⟨_, Attempt.run_eq_of_fst hok, by decide +kernel⟩

end Android
end ModuleLink
