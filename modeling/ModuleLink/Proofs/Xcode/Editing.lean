import ModuleLink.Proofs.Attempt
import ModuleLink.Proofs.Xcode.Groups
import ModuleLink.Xcode.Editing

/-!
Steps of edits as changes.  A property of graphs that proper changes of a kind keep is kept by every run of edits that
makes only such changes.
-/

namespace ModuleLink
namespace Xcode

open Plist Attempt

/-- The name can be written. -/
structure GroupName.IsProper (name : GroupName) : Prop where
  draft : name.draft.IsProper
  shown : IsComment name.shown

namespace Editing

variable {α : Type} {P : Graph → Prop} {Q : α → Prop} {A : Change → Prop} {g g' : Graph} {o : Object}
  {isa seed : String} {fields : List (String × Draft)} {comment : Option String}

/-! ## Single steps -/

theorem run_ask (question : Graph → Except Fault α) (g : Graph) : (ask question).run g = (question g, g) := rfl

theorem keeps_ask (question : Graph → Except Fault α) : Keeps P (ask question) := fun _ h => h

theorem gives_ask {question : Graph → Except Fault α} (h : ∀ g a, P g → question g = .ok a → Q a) :
    Gives P Q (ask question) := fun g hg => ⟨hg, fun a ha => h g a hg ha⟩

theorem run_add (isa : String) (fields : List (String × Draft)) (comment : Option String) (seed : String) (g : Graph) :
    (add isa fields comment seed).run g = match g.addObject isa fields comment seed with
      | .ok (g', o) => (.ok o, g')
      | .error f => (.error f, g) := by
  rw [add, run_bind_ok (run_get g)]
  rcases h : g.addObject isa fields comment seed with f | ⟨g', o⟩
  · exact run_bind_error (run_ofExcept _ _)
  · exact run_bind_ok (run_ofExcept _ _)

theorem run_add_eq_ok (h : (add isa fields comment seed).run g = (.ok o, g')) :
    g.addObject isa fields comment seed = .ok (g', o) := by
  rw [run_add] at h
  rcases hadd : g.addObject isa fields comment seed with f | ⟨g₁, o₁⟩
  · rw [hadd] at h
    exact absurd (Prod.mk.inj h).1 (by simp)
  · rw [hadd] at h
    obtain ⟨ho, hg⟩ := Prod.mk.inj h
    rw [Except.ok.inj ho, hg]

/-- A new object has its kind, and can be written. -/
theorem gives_add (hproper : (Change.add isa fields comment seed).IsProper)
    (hP : ∀ g, P g → P ((Change.add isa fields comment seed).apply g)) :
    Gives P (fun o => o.IsProper ∧ o.isa = isa) (add isa fields comment seed) := by
  intro g hg
  have hafter := hP g hg
  rw [run_add]
  rw [Change.apply] at hafter
  rcases hadd : g.addObject isa fields comment seed with f | ⟨g', o⟩
  · exact ⟨hg, fun o ho => by contradiction⟩
  · rw [hadd] at hafter
    refine ⟨hafter, fun o' ho' => ?_⟩
    obtain rfl := Except.ok.inj ho'
    obtain ⟨hproper, hisa, -, -⟩ := isProper_added hproper.1 hproper.2.1 hproper.2.2 hadd
    exact ⟨hproper, hisa⟩

theorem run_append (owner key ref : String) (comment : Option String) (g : Graph) :
    (append owner key ref comment).run g =
      (.ok (g.appendRef owner key ref comment).2, (Change.appendRef owner key ref comment).apply g) := rfl

theorem keeps_append {owner key ref : String} (hP : ∀ g, P g → P ((Change.appendRef owner key ref comment).apply g)) :
    Keeps P (append owner key ref comment) := hP

theorem run_detach (owner key ref : String) (g : Graph) :
    (detach owner key ref).run g = (.ok (g.removeRef owner key ref).2, (Change.removeRef owner key ref).apply g) := rfl

theorem keeps_detach {owner key ref : String} (hP : ∀ g, P g → P ((Change.removeRef owner key ref).apply g)) :
    Keeps P (detach owner key ref) := hP

theorem run_remove (id : String) (g : Graph) :
    (remove id).run g = ((g.removeObject id).2, (Change.remove id).apply g) := rfl

theorem keeps_remove {id : String} (hP : ∀ g, P g → P ((Change.remove id).apply g)) : Keeps P (remove id) := hP

/-! ## Properties that changes keep -/

/-- Proper changes of a kind keep the property, and graphs that have it can be written. -/
structure Stable (A : Change → Prop) (P : Graph → Prop) : Prop where
  proper : ∀ g, P g → ∀ o ∈ g.objects, o.IsProper
  apply : ∀ g c, P g → c.IsProper → A c → P (c.apply g)

theorem Stable.and {Q : Graph → Prop} (hP : Stable A P) (hQ : ∀ g c, P g → Q g → c.IsProper → A c → Q (c.apply g)) :
    Stable A fun g => P g ∧ Q g where
  proper g hg := hP.proper g hg.1
  apply g c hg hc hA := ⟨hP.apply g c hg.1 hc hA, hQ g c hg.1 hg.2 hc hA⟩

theorem stable_follows (A : Change → Prop) (g₀ : Graph) : Stable A (Follows g₀) where
  proper _ h := h.proper
  apply _ _ h hc _ := h.apply hc

/-- An object that is no group is none with a fitting label. -/
theorem isAdding_of_ne {fits : Option String → Bool} (hproper : (Change.add isa fields comment seed).IsProper)
    (hisa : isa ≠ "PBXGroup") : (Change.add isa fields comment seed).IsAdding fits := by
  intro g g' o hadd hgroup
  obtain ⟨-, hkind, -, -⟩ := isProper_added hproper.1 hproper.2.1 hproper.2.2 hadd
  exact absurd (hkind.symm.trans hgroup) hisa

theorem grown_of_add {fits : Option String → Bool} (hproper : (Change.add isa fields comment seed).IsProper)
    (hisa : isa ≠ "PBXGroup") (h : g.addObject isa fields comment seed = .ok (g', o)) : g.Grown fits g' := by
  have happly : (Change.add isa fields comment seed).apply g = g' := by rw [Change.apply, h]
  rw [← happly]
  exact Change.grown_apply (isAdding_of_ne hproper hisa)

theorem grown_of_append {fits : Option String → Bool} (g : Graph) (owner key : String)
    (hkey : key ∉ Object.faceKeys) (ref : String) (comment : Option String) :
    g.Grown fits (g.appendRef owner key ref comment).1 :=
  Change.grown_apply (show (Change.appendRef owner key ref comment).IsAdding fits from hkey)

/-! ## Groups -/

/-- The group that is made for a name. -/
def groupChange (name : GroupName) : Change :=
  .add "PBXGroup" [("children", .list []), ("name", name.draft), ("sourceTree", .text "<group>")] (some name.shown)
    ("group:" ++ name.shown)

end Editing
end Xcode
end ModuleLink
