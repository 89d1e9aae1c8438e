import ModuleLink.Ios.Registration
import ModuleLink.Proofs.Xcode.Editing

/-!
What unlinking a library takes out of a project file.  It only takes away: objects, references to them, and settings.
-/

namespace ModuleLink
namespace Ios

open Plist Xcode Editing Attempt

variable {P : Graph → Prop} {g : Graph}

section Removals

variable (hP : Stable Change.IsRemoving P)

include hP

theorem keeps_detach_of_stable {key : String} (hkey : key ≠ "isa" ∧ IsQuotable key) (hface : key ∉ Object.faceKeys)
    (owner ref : String) : Keeps P (detach owner key ref) :=
  keeps_detach fun g hg => hP.apply g (.removeRef owner key ref) hg hkey hface

theorem keeps_remove_of_stable (id : String) : Keeps P (remove id) :=
  keeps_remove fun g hg => hP.apply g (.remove id) hg trivial trivial

theorem keeps_detachFile (phase ref : String) : Keeps P (detach phase "files" ref) :=
  keeps_detach_of_stable hP ⟨by decide, isQuotable_of_word (List.all_eq_true.mp (by decide))⟩ (by decide) phase ref

theorem keeps_detachChild (group ref : String) : Keeps P (detach group "children" ref) :=
  keeps_detach_of_stable hP ⟨by decide, isQuotable_of_word (List.all_eq_true.mp (by decide))⟩ (by decide) group ref

/-! ## Groups -/

theorem keeps_dropGroup (group : Option Object) (name : GroupName) : Keeps P (dropGroup group name) := by
  cases group with
  | none => exact keeps_pure _
  | some group =>
    rw [dropGroup]
    split
    · exact keeps_pure _
    · refine (keeps_ask _).bind fun main => ?_
      cases main with
      | none => exact (keeps_remove_of_stable hP _).bind fun _ => keeps_pure _
      | some main =>
        exact (keeps_detachChild hP _ _).bind fun _ => (keeps_remove_of_stable hP _).bind fun _ => keeps_pure _

/-! ## Libraries -/

theorem keeps_removeStaticLibrary (library product : String) : Keeps P (removeStaticLibrary library product) := by
  refine (keeps_ask _).bind fun targets => (keeps_forIn (fun target _ _ => ?_) _).bind fun _ => ?_
  · refine keeps_get.bind fun g => ?_
    split
    · refine keeps_get.bind fun g => ?_
      split
      · exact (keeps_detachFile hP _ _).bind fun _ => (keeps_remove_of_stable hP _).bind fun _ => keeps_pure _
      · exact (keeps_remove_of_stable hP _).bind fun _ => keeps_pure _
    · exact keeps_pure _
  · refine keeps_get.bind fun g => ?_
    split
    · refine (keeps_ask _).bind fun users => ?_
      split
      · exact (keeps_remove_of_stable hP _).bind fun _ => keeps_pure _
      · exact keeps_pure _
    · exact keeps_pure _

theorem keeps_removeBuildFiles (file : String) : Keeps P (removeBuildFiles file) := by
  refine (keeps_ask _).bind fun buildFiles => (keeps_forIn (fun buildFile _ _ => ?_) _).bind fun _ => keeps_pure _
  refine (keeps_forIn (fun isa _ _ => ?_) _).bind fun _ => (keeps_remove_of_stable hP _).bind fun _ => keeps_pure _
  refine (keeps_ask _).bind fun phases => (keeps_forIn (fun phase _ _ => ?_) _).bind fun _ => keeps_pure _
  exact (keeps_detachFile hP _ _).bind fun _ => keeps_pure _

/-- Removing system libraries takes them out one by one, before the group for them is looked at. -/
theorem keeps_removeLibrary (group : Option Object) (library : String) :
    Keeps P (do
      if (← get).contains (Digest.stableId (systemSeed library)) then
        removeBuildFiles (Digest.stableId (systemSeed library))
        match group with
        | some group => let _ ← detach group.id "children" (Digest.stableId (systemSeed library))
        | none => pure ()
        let _ ← remove (Digest.stableId (systemSeed library))
      return ForInStep.yield PUnit.unit : Editing (ForInStep PUnit)) := by
  refine keeps_get.bind fun g => ?_
  split
  · refine (keeps_removeBuildFiles hP _).bind fun _ => ?_
    cases group with
    | some group => exact (keeps_detachChild hP _ _).bind fun _ => (keeps_remove_of_stable hP _).bind fun _ => keeps_pure _
    | none => exact (keeps_remove_of_stable hP _).bind fun _ => keeps_pure _
  · exact keeps_pure _

/-! ## Header search paths -/

/-- Search paths are only taken out. -/
theorem keeps_removeHeaderSettings (headers : List Path) (path : Except Fault String) :
    Keeps P (changeHeaderSettings headers path Graph.removeSetting) := by
  rw [changeHeaderSettings]
  split
  · refine (keeps_ofExcept _).bind fun path => (keeps_ask _).bind fun configurations => ?_
    refine (keeps_forIn (fun configuration _ _ => Keeps.bind ?_ fun _ => keeps_pure _) _).bind fun _ => keeps_pure _
    exact fun g hg => hP.apply g (.removeSetting configuration.id headerSetting path) hg
      (isQuotable_of_word (List.all_eq_true.mp (by decide))) trivial
  · exact keeps_pure _

end Removals

end Ios
end ModuleLink
