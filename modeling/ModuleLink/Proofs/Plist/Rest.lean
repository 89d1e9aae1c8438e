import Mathlib.Data.List.Basic
import ModuleLink.Plist.Scan
import ModuleLink.Proofs.Outcome

/-!
What a reader of property lists leaves is an end of what it was given.
-/

namespace ModuleLink
namespace Plist

variable {cs rest : List Char}

/-! ## Blanks and comments -/

theorem closeComment?_suffix {inside : List Char} (h : closeComment? cs = some (inside, rest)) :
    cs = inside ++ '*' :: '/' :: rest := by
  fun_induction closeComment? cs generalizing inside rest with
  | case1 after =>
    obtain ⟨rfl, rfl⟩ := Prod.mk.inj (Option.some.inj h)
    rfl
  | case2 c cs hnot ih =>
    obtain ⟨r, hr, hpair⟩ := Option.map_eq_some_iff.mp h
    obtain ⟨rfl, rfl⟩ := Prod.mk.inj hpair
    rw [ih hr]
    rfl
  | case3 => contradiction

theorem nextLine_suffix (cs : List Char) : nextLine cs <:+ cs :=
  (List.drop_suffix 1 _).trans (List.dropWhile_suffix _)

theorem skip_suffix (h : skip cs = .ok rest) : rest <:+ cs := by
  fun_induction skip cs with
  | case1 cs after hblank inside left hclose ih =>
    have hafter : left <:+ after := ⟨inside ++ ['*', '/'], by rw [closeComment?_suffix hclose]; simp⟩
    have hcs : '/' :: '*' :: after <:+ cs := hblank ▸ List.dropWhile_suffix _
    exact ((ih h).trans hafter).trans (((List.suffix_cons _ _).trans (List.suffix_cons _ _)).trans hcs)
  | case2 => contradiction
  | case3 cs after hblank ih =>
    have hcs : '/' :: '/' :: after <:+ cs := hblank ▸ List.dropWhile_suffix _
    exact ((ih h).trans (nextLine_suffix after)).trans
      (((List.suffix_cons _ _).trans (List.suffix_cons _ _)).trans hcs)
  | case4 cs =>
    obtain rfl := Except.ok.inj h
    exact List.dropWhile_suffix _

theorem expect_eq_ok {c : Char} (h : expect c cs = .ok rest) : skip cs = .ok (c :: rest) := by
  obtain ⟨s, hs, h⟩ := ok_of_bind h
  cases s with
  | nil => contradiction
  | cons d s =>
    by_cases hd : d = c
    · subst hd
      simp only [if_true, Except.ok.injEq] at h
      rw [hs, h]
    · simp only [if_neg hd] at h
      contradiction

theorem expect_of_skip {c : Char} (h : skip cs = .ok (c :: rest)) : expect c cs = .ok rest := by
  rw [expect, bind_of_ok h]
  simp

theorem expect_suffix {c : Char} (h : expect c cs = .ok rest) : c :: rest <:+ cs :=
  skip_suffix (expect_eq_ok h)

/-! ## Scalars -/

theorem quotedTail?_suffix {text : List Char} (h : quotedTail? cs = some (text, rest)) : cs = text ++ rest := by
  fun_induction quotedTail? cs generalizing text rest with
  | case1 => contradiction
  | case2 after =>
    obtain ⟨rfl, rfl⟩ := Prod.mk.inj (Option.some.inj h)
    rfl
  | case3 c after ih =>
    obtain ⟨r, hr, hpair⟩ := Option.map_eq_some_iff.mp h
    obtain ⟨rfl, rfl⟩ := Prod.mk.inj hpair
    rw [ih hr]
    rfl
  | case4 => contradiction
  | case5 c after _ _ _ ih =>
    obtain ⟨r, hr, hpair⟩ := Option.map_eq_some_iff.mp h
    obtain ⟨rfl, rfl⟩ := Prod.mk.inj hpair
    rw [ih hr]
    rfl

theorem word_append (cs : List Char) : (word cs).1 ++ (word cs).2 = cs := by
  fun_induction word cs with
  | case1 => rfl
  | case2 => rfl
  | case3 => rfl
  | case4 rest _ _ ih => exact congrArg _ ih
  | case5 c rest _ _ _ ih => exact congrArg _ ih
  | case6 => rfl

theorem token?_suffix {text : List Char} (h : token? cs = some (text, rest)) : cs = text ++ rest ∧ text ≠ [] := by
  rw [token?.eq_def] at h
  split at h
  · obtain ⟨r, hr, hpair⟩ := Option.map_eq_some_iff.mp h
    obtain ⟨rfl, rfl⟩ := Prod.mk.inj hpair
    rw [quotedTail?_suffix hr]
    exact ⟨rfl, by simp⟩
  · have happend := word_append cs
    split at h
    · contradiction
    next hne =>
      rw [Option.some.injEq] at h
      rw [h] at happend
      exact ⟨happend.symm, fun e => hne rest (by rw [h, e])⟩

theorem trailingComment_suffix {comment : Option String} (h : trailingComment cs = .ok (comment, rest)) :
    rest <:+ cs := by
  rw [trailingComment] at h
  split at h
  next after hgap =>
    split at h
    next inside left hclose =>
      obtain ⟨-, rfl⟩ := Prod.mk.inj (Except.ok.inj h)
      have hafter : left <:+ after := ⟨inside ++ ['*', '/'], by rw [closeComment?_suffix hclose]; simp⟩
      have hcs : '/' :: '*' :: after <:+ cs := hgap ▸ List.dropWhile_suffix _
      exact hafter.trans (((List.suffix_cons _ _).trans (List.suffix_cons _ _)).trans hcs)
    · contradiction
  · obtain ⟨-, rfl⟩ := Prod.mk.inj (Except.ok.inj h)
    exact List.suffix_rfl

/-- What reading a scalar consists of. -/
theorem scalar_eq_ok {s : Scalar} (h : scalar cs = .ok (s, rest)) :
    ∃ start text left, skip cs = .ok start ∧ token? start = some (text, left) ∧ s.text = String.ofList text ∧
      trailingComment left = .ok (s.comment, rest) := by
  obtain ⟨start, hskip, h⟩ := ok_of_bind h
  simp only at h
  split at h
  · contradiction
  next text left htoken =>
    obtain ⟨⟨comment, after⟩, hcomment, h⟩ := ok_of_bind h
    obtain ⟨rfl, rfl⟩ := Prod.mk.inj (Except.ok.inj h)
    exact ⟨start, text, left, hskip, htoken, rfl, hcomment⟩

theorem scalar_suffix {s : Scalar} (h : scalar cs = .ok (s, rest)) : rest <:+ cs := by
  obtain ⟨start, text, left, hskip, htoken, -, hcomment⟩ := scalar_eq_ok h
  have hstart : left <:+ start := ⟨text, (token?_suffix htoken).1.symm⟩
  exact ((trailingComment_suffix hcomment).trans hstart).trans (skip_suffix hskip)

/-! ## Entries -/

theorem rest_suffix_of_expect {c : Char} (h : expect c cs = .ok rest) : rest <:+ cs :=
  (List.suffix_cons _ _).trans (expect_suffix h)

/-- The value of an entry stands behind its key. -/
theorem body_suffix {start left body : List Char} {key : Scalar} (hskip : skip cs = .ok start)
    (hkey : scalar start = .ok (key, left)) (hequals : expect '=' left = .ok body) : body <:+ cs :=
  ((rest_suffix_of_expect hequals).trans (scalar_suffix hkey)).trans (skip_suffix hskip)

end Plist
end ModuleLink
