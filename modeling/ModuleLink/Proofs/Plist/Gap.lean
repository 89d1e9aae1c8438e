import Mathlib.Data.List.TakeWhile
import ModuleLink.Proofs.Plist.Rest

/-!
Gaps: blank characters and comments, which the reader of property lists passes over.
-/

namespace ModuleLink
namespace Plist

variable {cs rest g h inside : List Char}

/-! ## Comments -/

/-- A comment ends at the same place whatever follows it. -/
theorem closeComment?_congr {x : List Char} (h : closeComment? (inside ++ '*' :: '/' :: x) = some (inside, x))
    (y : List Char) : closeComment? (inside ++ '*' :: '/' :: y) = some (inside, y) := by
  induction inside with
  | nil => rfl
  | cons c inside ih =>
    rw [List.cons_append] at h ⊢
    rw [closeComment?.eq_def] at h ⊢
    split at h
    · simp at h
    next c' cs' hnot heq =>
      obtain ⟨rfl, rfl⟩ := List.cons.inj heq
      obtain ⟨r, hr, hpair⟩ := Option.map_eq_some_iff.mp h
      obtain ⟨hhead, hx⟩ := Prod.mk.inj hpair
      have hinside : r.1 = inside := (List.cons.inj hhead).2
      have hr' : closeComment? (inside ++ '*' :: '/' :: x) = some (inside, x) := by rw [hr, ← hinside, ← hx]
      split
      next after hafter =>
        -- The end of a comment takes two characters, and both are there already.
        obtain ⟨rfl, htail⟩ := List.cons.inj hafter
        cases inside with
        | nil => exact absurd (List.cons.inj htail).1 (by decide)
        | cons d inside =>
          obtain ⟨rfl, -⟩ := List.cons.inj htail
          exact absurd rfl (hnot (inside ++ '*' :: '/' :: x) rfl)
      next c'' cs'' _ heq' =>
        obtain ⟨rfl, rfl⟩ := List.cons.inj heq'
        rw [ih hr']
        rfl
      next hnil => exact absurd hnil (by simp)
    next hnil => exact absurd hnil (by simp)

/-! ## Gaps -/

/-- Blank characters, comments, and comments that go to the end of their line. -/
inductive Gap : List Char → Prop
  | nil : Gap []
  | blank {c : Char} {g : List Char} : Text.isBlank c = true → Gap g → Gap (c :: g)
  | comment {inside g : List Char} : closeComment? (inside ++ ['*', '/']) = some (inside, []) → Gap g →
      Gap ('/' :: '*' :: (inside ++ '*' :: '/' :: g))
  | line {text g : List Char} : '\n' ∉ text → Gap g → Gap ('/' :: '/' :: (text ++ '\n' :: g))

theorem Gap.append (hg : Gap g) (hh : Gap h) : Gap (g ++ h) := by
  induction hg with
  | nil => exact hh
  | blank hc _ ih => exact .blank hc ih
  | comment hinside _ ih =>
    rw [List.cons_append, List.cons_append, List.append_assoc]
    exact .comment hinside ih
  | line htext _ ih =>
    rw [List.cons_append, List.cons_append, List.append_assoc]
    exact .line htext ih

theorem gap_of_blank (hg : ∀ c ∈ g, Text.isBlank c = true) : Gap g := by
  induction g with
  | nil => exact .nil
  | cons c g ih => exact .blank (hg c (by simp)) (ih fun d hd => hg d (by simp [hd]))

theorem gap_space : Gap [' '] := .blank (by decide) .nil

theorem gap_newline : Gap ['\n'] := .blank (by decide) .nil

theorem skip_cons_of_blank {c : Char} (hc : Text.isBlank c = true) (cs : List Char) : skip (c :: cs) = skip cs := by
  rw [skip.eq_def, skip.eq_def cs, List.dropWhile_cons_of_pos hc]

theorem skip_comment {after : List Char} (h : closeComment? cs = some (inside, after)) :
    skip ('/' :: '*' :: cs) = skip after := by
  rw [skip.eq_def, List.dropWhile_cons_of_neg (by decide)]
  simp only
  split
  next left hleft =>
    rw [h] at hleft
    obtain ⟨-, rfl⟩ := Prod.mk.inj (Option.some.inj hleft)
    rfl
  next hnone =>
    rw [h] at hnone
    contradiction

theorem skip_line (cs : List Char) : skip ('/' :: '/' :: cs) = skip (nextLine cs) := by
  rw [skip.eq_def, List.dropWhile_cons_of_neg (by decide)]
  rfl

theorem nextLine_append (h : '\n' ∉ cs) (rest : List Char) : nextLine (cs ++ '\n' :: rest) = rest := by
  have hall : ∀ c ∈ cs, (c != '\n') = true := fun c hc => by
    simp only [bne_iff_ne]
    rintro rfl
    exact h hc
  rw [nextLine, List.dropWhile_append_of_pos hall, List.dropWhile_cons_of_neg (by decide)]
  rfl

theorem nextLine_of_notMem (h : '\n' ∉ cs) : nextLine cs = [] := by
  have hdrop : cs.dropWhile (· != '\n') = [] := by
    refine List.dropWhile_eq_nil_iff.mpr fun c hc => ?_
    simp only [bne_iff_ne]
    rintro rfl
    exact h hc
  rw [nextLine, hdrop]
  rfl

/-- A gap is passed over. -/
theorem Gap.skip_append (hg : Gap g) (cs : List Char) : skip (g ++ cs) = skip cs := by
  induction hg with
  | nil => rfl
  | blank hc _ ih => rw [List.cons_append, skip_cons_of_blank hc, ih]
  | @comment inside g hinside _ ih =>
    have hclose := closeComment?_congr hinside (g ++ cs)
    rw [List.cons_append, List.cons_append, List.append_assoc, List.cons_append, List.cons_append,
      skip_comment hclose, ih]
  | line htext _ ih =>
    rw [List.cons_append, List.cons_append, List.append_assoc, skip_line, List.cons_append, nextLine_append htext, ih]

/-- What is passed over before something is a gap. -/
theorem exists_gap_of_skip (h : skip cs = .ok rest) (hne : rest ≠ []) : ∃ g, Gap g ∧ cs = g ++ rest := by
  fun_induction skip cs with
  | case1 cs after hblank inside left hclose ih =>
    obtain ⟨g, hg, hleft⟩ := ih h
    refine ⟨cs.takeWhile Text.isBlank ++ '/' :: '*' :: (inside ++ '*' :: '/' :: g), ?_, ?_⟩
    · refine Gap.append (gap_of_blank fun c hc => List.all_eq_true.mp List.all_takeWhile c hc) (.comment ?_ hg)
      have hafter := closeComment?_suffix hclose
      rw [hafter] at hclose
      exact closeComment?_congr hclose []
    · have hcs := List.takeWhile_append_dropWhile (p := Text.isBlank) (l := cs)
      rw [hblank, closeComment?_suffix hclose, hleft] at hcs
      rw [List.append_assoc, List.cons_append, List.cons_append, List.append_assoc]
      exact hcs.symm
  | case2 => contradiction
  | case3 cs after hblank ih =>
    obtain ⟨g, hg, hleft⟩ := ih h
    have hline : '\n' ∈ after := by
      by_contra hno
      rw [nextLine_of_notMem hno] at hleft
      exact hne (List.append_eq_nil_iff.mp hleft.symm).2
    obtain ⟨text, tail, rfl, htext⟩ := List.eq_append_cons_of_mem hline
    rw [nextLine_append htext] at hleft
    refine ⟨cs.takeWhile Text.isBlank ++ '/' :: '/' :: (text ++ '\n' :: g), ?_, ?_⟩
    · exact Gap.append (gap_of_blank fun c hc => List.all_eq_true.mp List.all_takeWhile c hc) (.line htext hg)
    · have hcs := List.takeWhile_append_dropWhile (p := Text.isBlank) (l := cs)
      rw [hblank, hleft] at hcs
      rw [List.append_assoc, List.cons_append, List.cons_append, List.append_assoc]
      exact hcs.symm
  | case4 cs =>
    obtain rfl := Except.ok.inj h
    exact ⟨cs.takeWhile Text.isBlank, gap_of_blank fun c hc => List.all_eq_true.mp List.all_takeWhile c hc,
      (List.takeWhile_append_dropWhile ..).symm⟩

end Plist
end ModuleLink
