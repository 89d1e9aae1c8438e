import ModuleLink.Text.Search

/-!
What the searches of `Text.Search` find, in terms of what a text is put together from.
-/

namespace ModuleLink
namespace Text

theorem startsWith_iff {p cs : List Char} : startsWith p cs = true ↔ ∃ r, cs = p ++ r := by
  simp only [startsWith, Option.isSome_iff_exists, after?_eq_some_iff]

theorem startsWith_append (p r : List Char) : startsWith p (p ++ r) = true :=
  startsWith_iff.mpr ⟨r, rfl⟩

theorem after?_append (p r : List Char) : after? p (p ++ r) = some r :=
  after?_eq_some_iff.mpr rfl

/-- The first occurrence is an occurrence, and none starts before it. -/
theorem indexOf?_eq_some {p cs : List Char} {n : Nat} (h : indexOf? p cs = some n) :
    ∃ a b, cs = a ++ p ++ b ∧ a.length = n := by
  induction cs generalizing n with
  | nil =>
    cases p with
    | nil => simp [indexOf?] at h; exact ⟨[], [], rfl, by simp [h]⟩
    | cons => simp [indexOf?] at h
  | cons c cs ih =>
    rw [indexOf?] at h
    split at h
    · next hs =>
      obtain ⟨r, hr⟩ := startsWith_iff.mp hs
      exact ⟨[], r, by simpa using hr, by simpa using h⟩
    · obtain ⟨m, hm, rfl⟩ := Option.map_eq_some_iff.mp h
      obtain ⟨a, b, rfl, rfl⟩ := ih hm
      exact ⟨c :: a, b, rfl, rfl⟩

theorem indexOf?_isSome {p a b : List Char} : (indexOf? p (a ++ p ++ b)).isSome = true := by
  induction a with
  | nil =>
    rw [List.nil_append]
    cases h : p ++ b with
    | nil => simp [indexOf?, List.append_eq_nil_iff.mp h]
    | cons c cs =>
      have hs : startsWith p (c :: cs) = true := h ▸ startsWith_append p b
      simp [indexOf?, hs]
  | cons c a ih =>
    rw [List.cons_append, List.cons_append, indexOf?]
    split
    · rfl
    · rw [Option.isSome_map]
      exact ih

theorem occursIn_iff {p cs : List Char} : occursIn p cs = true ↔ ∃ a b, cs = a ++ p ++ b := by
  constructor
  · intro h
    obtain ⟨n, hn⟩ := Option.isSome_iff_exists.mp h
    obtain ⟨a, b, hab, -⟩ := indexOf?_eq_some hn
    exact ⟨a, b, hab⟩
  · rintro ⟨a, b, rfl⟩
    exact indexOf?_isSome

/-- The position of a text that nothing before it brings about. -/
theorem indexOf?_of_first {p a b : List Char}
    (h : ∀ a₁ a₂, a = a₁ ++ a₂ → a₂ ≠ [] → startsWith p (a₂ ++ p ++ b) = false) :
    indexOf? p (a ++ p ++ b) = some a.length := by
  induction a with
  | nil =>
    rw [List.nil_append]
    cases hc : p ++ b with
    | nil => simp [indexOf?, List.append_eq_nil_iff.mp hc]
    | cons c cs =>
      have hs : startsWith p (c :: cs) = true := hc ▸ startsWith_append p b
      simp [indexOf?, hs]
  | cons c a ih =>
    have hc := h [] (c :: a) rfl (by simp)
    rw [List.cons_append, List.cons_append] at hc ⊢
    rw [indexOf?, hc, ih fun a₁ a₂ e hne => h (c :: a₁) a₂ (by rw [e]; rfl) hne]
    rfl

end Text
end ModuleLink
