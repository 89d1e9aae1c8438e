import Mathlib
import ModuleLink.Android.Blocks
import ModuleLink.Proofs.Patch.Anchor
import ModuleLink.Proofs.Text.Occurrences

/-!
The texts that make a build file depend on a project.  The file depends on it exactly if one of them stands in it.
-/

namespace ModuleLink
namespace Android

open Patch Text

/-! ## Projects -/

def projectOpening : List Char := "project(".toList

/-- The name of a project as a dependency. -/
def projectTerm (project : String) (q q' : Char) : List Char :=
  projectOpening ++ q :: ':' :: (project.toList ++ [q', ')'])

theorem projectTerm_append (project : String) (q q' : Char) (r : List Char) :
    projectTerm project q q' ++ r = projectOpening ++ q :: (':' :: project.toList ++ q' :: ')' :: r) := by
  rw [projectTerm]
  simp only [List.append_assoc, List.cons_append, List.nil_append]

/-! ## Dependencies -/

/-- The texts that make a build file depend on a project: a configuration with a longer name perhaps, blanks, opening
parentheses, and the project. -/
inductive IsDependencyText (project : String) : List Char → Prop
  | intro {word ws bs os : List Char} {q q' : Char} : word ∈ configurations → (∀ c ∈ ws, isWord c = true) →
      (∀ c ∈ bs, isBlank c = true) → (∀ c ∈ os, c = '(') → IsQuote q → IsQuote q' →
      IsDependencyText project (word ++ (ws ++ (bs ++ (os ++ projectTerm project q q'))))

/-- What is passed over in front of a project ends where the project starts. -/
theorem dropWhile_projectTerm {f : Char → Bool} (hf : f 'p' = false) {os : List Char} (hos : ∀ c ∈ os, f c = true)
    (project : String) (q q' : Char) (r : List Char) :
    (os ++ (projectTerm project q q' ++ r)).dropWhile f = projectTerm project q q' ++ r := by
  have hopening : projectOpening = 'p' :: "roject(".toList := by decide
  rw [List.dropWhile_append_of_pos hos, projectTerm_append, hopening, List.cons_append, List.dropWhile_cons, hf]
  rfl

theorem projectDependency_iff {project : String} {cs : List Char} :
    projectDependency project cs = true ↔
      ∃ os q q' r, (∀ c ∈ os, c = '(') ∧ IsQuote q ∧ IsQuote q' ∧ cs = os ++ (projectTerm project q q' ++ r) := by
  rw [projectDependency]
  constructor
  · intro h
    split at h
    next rest hrest =>
      split at h
      next r hr =>
        obtain ⟨q, q', hq, hq', rfl⟩ := quoted?_eq_some_iff.mp hr
        have hdrop : cs.dropWhile (· == '(') = projectTerm project q q' ++ r := by
          rw [projectTerm_append]
          exact after?_eq_some_iff.mp hrest
        refine ⟨cs.takeWhile (· == '('), q, q', r, fun c hc => ?_, hq, hq', ?_⟩
        · simpa using List.all_eq_true.mp List.all_takeWhile c hc
        · rw [← hdrop, List.takeWhile_append_dropWhile]
      · contradiction
    · contradiction
  · rintro ⟨os, q, q', r, hos, hq, hq', rfl⟩
    have hparens : ∀ c ∈ os, (c == '(') = true := fun c hc => by simp [hos c hc]
    have hafter : after? "project(".toList (projectTerm project q q' ++ r) =
        some (q :: (':' :: project.toList ++ q' :: ')' :: r)) := by
      rw [projectTerm_append]
      exact after?_append _ _
    have hquoted : quoted? (':' :: project.toList) (q :: (':' :: project.toList ++ q' :: ')' :: r)) =
        some (')' :: r) := quoted?_eq_some_iff.mpr ⟨q, q', hq, hq', rfl⟩
    rw [dropWhile_projectTerm (by decide) hparens, hafter]
    simp only [hquoted]

theorem configurationTail_iff {project : String} {cs : List Char} :
    configurationTail project cs = true ↔
      ∃ ws bs r, (∀ c ∈ ws, isWord c = true) ∧ (∀ c ∈ bs, isBlank c = true) ∧ projectDependency project r = true ∧
        cs = ws ++ (bs ++ r) := by
  constructor
  · intro h
    induction cs with
    | nil => exact ⟨[], [], [], by simp, by simp, h, rfl⟩
    | cons c cs ih =>
      rw [configurationTail, Bool.or_eq_true, Bool.and_eq_true] at h
      rcases h with h | ⟨hc, h⟩
      · refine ⟨[], (c :: cs).takeWhile isBlank, _, by simp, fun d hd => ?_, h, ?_⟩
        · exact List.all_eq_true.mp List.all_takeWhile d hd
        · rw [List.nil_append, List.takeWhile_append_dropWhile]
      · obtain ⟨ws, bs, r, hws, hbs, hr, rfl⟩ := ih h
        refine ⟨c :: ws, bs, r, ?_, hbs, hr, rfl⟩
        rw [List.forall_mem_cons]
        exact ⟨hc, hws⟩
  · rintro ⟨ws, bs, r, hws, hbs, hr, rfl⟩
    induction ws with
    | nil =>
      have hdrop : (bs ++ r).dropWhile isBlank = r := by
        obtain ⟨os, q, q', r', hos, -, -, rfl⟩ := projectDependency_iff.mp hr
        rw [List.dropWhile_append_of_pos hbs]
        cases os with
        | nil => exact @dropWhile_projectTerm isBlank (by decide) [] (by simp) project q q' r'
        | cons o os =>
          have ho : isBlank o = false := by
            rw [hos o (by simp)]
            decide
          rw [List.cons_append, List.dropWhile_cons, ho]
          rfl
      cases hcs : bs ++ r with
      | nil =>
        obtain ⟨-, rfl⟩ := List.append_eq_nil_iff.mp hcs
        rw [List.nil_append, configurationTail]
        exact hr
      | cons c cs =>
        rw [List.nil_append, configurationTail, ← hcs, hdrop, hr, Bool.true_or]
    | cons w ws ih =>
      rw [List.forall_mem_cons] at hws
      rw [List.cons_append, configurationTail, hws.1, ih hws.2, Bool.true_and, Bool.or_true]

theorem isDependencyAt_iff {project : String} {cs : List Char} :
    isDependencyAt project cs = true ↔ ∃ x, IsDependencyText project x ∧ x <+: cs := by
  rw [isDependencyAt, List.any_eq_true]
  constructor
  · rintro ⟨word, hword, h⟩
    split at h
    next rest hrest =>
      obtain ⟨ws, bs, r, hws, hbs, hr, rfl⟩ := configurationTail_iff.mp h
      obtain ⟨os, q, q', r', hos, hq, hq', rfl⟩ := projectDependency_iff.mp hr
      refine ⟨_, .intro hword hws hbs hos hq hq', r', ?_⟩
      rw [after?_eq_some_iff.mp hrest]
      simp only [List.append_assoc]
    · contradiction
  · rintro ⟨_, ⟨hword, hws, hbs, hos, hq, hq'⟩, r, rfl⟩
    rename_i word ws bs os q q'
    refine ⟨word, hword, ?_⟩
    rw [List.append_assoc, after?_append]
    simp only [List.append_assoc]
    exact configurationTail_iff.mpr ⟨ws, bs, _, hws, hbs, projectDependency_iff.mpr ⟨os, q, q', r, hos, hq, hq', rfl⟩, rfl⟩

/-- A dependency starts with a letter. -/
theorem IsDependencyText.head? {project : String} {x : List Char} (h : IsDependencyText project x) :
    ∃ c, x.head? = some c ∧ isBlank c = false := by
  obtain ⟨hword, -, -, -, -, -⟩ := h
  rename_i word ws bs os q q'
  have hall : configurations.all (fun word => word.head?.any fun c => !isBlank c) = true := by decide
  have hhead := List.all_eq_true.mp hall word hword
  cases word with
  | nil => contradiction
  | cons c word =>
    refine ⟨c, rfl, ?_⟩
    simpa using hhead

theorem IsDependencyText.ne_nil {project : String} {x : List Char} (h : IsDependencyText project x) : x ≠ [] := by
  obtain ⟨c, hc, -⟩ := h.head?
  rintro rfl
  contradiction

/-- A character that stands in no dependency but at its end. -/
structure IsCloser (c : Char) : Prop where
  word : isWord c = false
  blank : isBlank c = false
  opening : c ∉ '(' :: ':' :: projectOpening
  quote : ¬IsQuote c

theorem IsCloser.notMem_dropLast {c : Char} (hc : IsCloser c) {project : String} (hproject : c ∉ project.toList)
    {x : List Char} (h : IsDependencyText project x) : c ∉ x.dropLast := by
  obtain ⟨hword, hws, hbs, hos, hq, hq'⟩ := h
  rename_i word ws bs os q q'
  have hall : configurations.all (fun word => word.all isWord) = true := by decide
  have hword := List.all_eq_true.mp (List.all_eq_true.mp hall word hword)
  have hdropLast : (word ++ (ws ++ (bs ++ (os ++ projectTerm project q q')))).dropLast =
      word ++ (ws ++ (bs ++ (os ++ (projectOpening ++ q :: ':' :: (project.toList ++ [q']))))) := by
    have hlast : word ++ (ws ++ (bs ++ (os ++ projectTerm project q q'))) =
        word ++ (ws ++ (bs ++ (os ++ (projectOpening ++ q :: ':' :: (project.toList ++ [q']))))) ++ [')'] := by
      rw [projectTerm]
      simp only [List.append_assoc, List.cons_append, List.nil_append]
    rw [hlast, List.dropLast_concat]
  have hopening := hc.opening
  simp only [List.mem_cons, not_or] at hopening
  obtain ⟨hparen, hcolon, hopening⟩ := hopening
  have hne {f : Char → Bool} (hf : f c = false) {l : List Char} (hl : ∀ d ∈ l, f d = true) : c ∉ l := by
    intro hmem
    rw [hl c hmem] at hf
    contradiction
  rw [hdropLast]
  simp only [List.mem_append, List.mem_cons, List.not_mem_nil, or_false, not_or]
  exact ⟨hne hc.word hword, hne hc.word hws, hne hc.blank hbs, fun hmem => hparen (hos c hmem), hopening,
    fun e => hc.quote (e ▸ hq), hcolon, hproject, fun e => hc.quote (e ▸ hq')⟩

theorem hasDependencyChars_iff {project : String} {cs : List Char} :
    hasDependencyChars project cs = true ↔ ∃ x, IsDependencyText project x ∧ x <:+: cs := by
  induction cs with
  | nil =>
    rw [hasDependencyChars]
    constructor
    · intro h
      contradiction
    · rintro ⟨x, hx, hpart⟩
      exact absurd (List.eq_nil_of_infix_nil hpart) hx.ne_nil
  | cons c cs ih =>
    rw [hasDependencyChars, Bool.or_eq_true, isDependencyAt_iff, ih]
    simp only [List.infix_cons_iff, and_or_left, exists_or]

/-! ## The line that is inserted -/

/-- The line that is put into the build file makes it depend on the project. -/
theorem exists_dependencyText_buildInsertion (name : String) :
    ∃ x, IsDependencyText (projectName name) x ∧ x <:+: (buildInsertion name).chars := by
  have hword : "implementation".toList ∈ configurations := by decide
  have hfront : "    implementation project(':".toList =
      "    ".toList ++ ("implementation".toList ++ ' ' :: (projectOpening ++ ['\'', ':'])) := by decide
  have hback : "')\n".toList = ['\'', ')', '\n'] := by decide
  refine ⟨_, @IsDependencyText.intro _ _ [] [' '] [] '\'' '\'' hword (by simp) (by simp [isBlank]) (by simp) (.inl rfl)
    (.inl rfl), "    ".toList, ['\n'], ?_⟩
  rw [Insertion.chars, buildInsertion, String.toList_append, String.toList_append, hfront, hback, projectTerm]
  simp only [List.append_assoc, List.cons_append, List.nil_append]

theorem hasDependency_of_isIn {name : String} {content : List Char} (h : (buildInsertion name).isIn content = true) :
    hasDependency name content = true := by
  obtain ⟨x, hx, hpart⟩ := exists_dependencyText_buildInsertion name
  have hin := occursIn_iff_infix.mp h
  exact hasDependencyChars_iff.mpr ⟨x, hx, hpart.trans hin⟩

end Android
end ModuleLink
