import Mathlib.Data.List.DropRight
import ModuleLink.Text.Classes

/-!
Texts without blank characters at their ends.
-/

namespace ModuleLink
namespace Text

theorem trim_infix (cs : List Char) : trim cs <:+: cs := by
  have hback : (trim cs) <+: cs.dropWhile isBlank := by
    rw [← List.reverse_suffix, trim, List.reverse_reverse]
    exact List.dropWhile_suffix _
  exact hback.isInfix.trans (List.dropWhile_suffix _).isInfix

/-- A text is trimmed if no blank character starts it and none ends it. -/
theorem trim_eq_self_iff {cs : List Char} :
    trim cs = cs ↔ cs.head?.any isBlank = false ∧ cs.getLast?.any isBlank = false := by
  have hdrop (cs : List Char) : cs.dropWhile isBlank = cs ↔ cs.head?.any isBlank = false := by
    cases cs with
    | nil => simp
    | cons c cs =>
      by_cases hc : isBlank c = true
      · rw [List.dropWhile_cons_of_pos hc, List.head?_cons, Option.any_some, hc]
        refine ⟨fun h => ?_, fun h => absurd h (by decide)⟩
        have hlen := (List.dropWhile_suffix (l := cs) isBlank).length_le
        rw [h, List.length_cons] at hlen
        omega
      · rw [List.dropWhile_cons_of_neg hc]
        simpa using hc
  rw [← hdrop, ← List.head?_reverse, ← hdrop]
  constructor
  · intro h
    have hfront : cs.dropWhile isBlank = cs := by
      have hlen := congrArg List.length h
      have hback := (List.dropWhile_suffix (l := (cs.dropWhile isBlank).reverse) isBlank).length_le
      rw [trim, List.length_reverse] at hlen
      rw [List.length_reverse] at hback
      exact (List.dropWhile_suffix _).eq_of_length_le (by omega)
    refine ⟨hfront, ?_⟩
    rw [trim, hfront] at h
    rw [← List.reverse_reverse (List.dropWhile isBlank cs.reverse), h]
  · rintro ⟨hfront, hback⟩
    rw [trim, hfront, hback, List.reverse_reverse]

theorem trim_trim (cs : List Char) : trim (trim cs) = trim cs := by
  rw [trim_eq_self_iff]
  have hfront : (cs.dropWhile isBlank).head?.any isBlank = false := by
    have h := List.head?_dropWhile_not isBlank cs
    cases hd : (cs.dropWhile isBlank).head? with
    | none => rfl
    | some d =>
      rw [hd] at h
      simpa using h
  have hback : (trim cs).reverse.head?.any isBlank = false := by
    have h := List.head?_dropWhile_not isBlank (cs.dropWhile isBlank).reverse
    rw [trim, List.reverse_reverse]
    cases hd : ((cs.dropWhile isBlank).reverse.dropWhile isBlank).head? with
    | none => rfl
    | some d =>
      rw [hd] at h
      simpa using h
  refine ⟨?_, by rw [← List.head?_reverse]; exact hback⟩
  have hpre : trim cs <+: cs.dropWhile isBlank := by
    rw [← List.reverse_suffix, trim, List.reverse_reverse]
    exact List.dropWhile_suffix _
  obtain ⟨t, ht⟩ := hpre
  cases hc : trim cs with
  | nil => rfl
  | cons c rest =>
    rw [← ht, hc, List.cons_append, List.head?_cons] at hfront
    exact hfront

/-- Blank characters around a trimmed text are what trimming takes away. -/
theorem trim_padded {cs : List Char} (h : trim cs = cs) : trim (' ' :: (cs ++ [' '])) = cs := by
  obtain ⟨hfront, hback⟩ := trim_eq_self_iff.mp h
  rw [trim, List.dropWhile_cons_of_pos (by decide)]
  cases cs with
  | nil => rfl
  | cons c rest =>
    rw [List.head?_cons, Option.any_some] at hfront
    rw [List.cons_append, List.dropWhile_cons_of_neg (by simp [hfront]), ← List.cons_append, List.reverse_append,
      List.reverse_singleton, List.singleton_append, List.dropWhile_cons_of_pos (by decide)]
    rw [← List.head?_reverse] at hback
    cases hr : (c :: rest).reverse with
    | nil => simp at hr
    | cons d s =>
      rw [hr, List.head?_cons, Option.any_some] at hback
      rw [List.dropWhile_cons_of_neg (by simp [hback]), ← hr, List.reverse_reverse]

end Text
end ModuleLink
