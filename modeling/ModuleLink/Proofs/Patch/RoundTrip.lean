import Mathlib
import ModuleLink.Proofs.Patch.Anchor

/-!
Insertions behind an anchor, made and taken out.  Taking out an insertion that was just made gives back the content it
was made in.
-/

namespace ModuleLink
namespace Patch
namespace Insertion

variable {p : Insertion} {a : Anchor} {path : String} {content changed : List Char}

theorem isIn_iff : p.isIn content = true ↔ ∃ u v, content = u ++ p.chars ++ v := Text.occursIn_iff

/-- The insertion goes behind an anchor. -/
structure IsBehind (p : Insertion) (a : Anchor) : Prop where
  anchor : p.anchor = some a
  relation : p.relation = .after

/-- The text of the insertion was not in the content, and goes behind the only place of the anchor. -/
structure Made (p : Insertion) (content changed : List Char) : Prop where
  nonempty : p.isEmpty = false
  fresh : p.isIn content = false
  split : ∃ a s e, p.IsBehind a ∧ a.places content = [(s, e)] ∧ changed = p.insertAt content e

theorem apply_eq_none (h : (p.isEmpty || p.isIn content) = true) : p.apply path content = .ok none := by
  rw [apply, h]
  rfl

theorem apply_eq (hp : p.IsBehind a) (h : (p.isEmpty || p.isIn content) = false) :
    p.apply path content =
      match a.places content with
      | [] => .error (.anchorMissing (p.placement path a))
      | [(_, stop)] => .ok (some (p.insertAt content stop))
      | many => .error (.anchorAmbiguous (p.placement path a) many.length) := by
  rw [apply, h, hp.relation, requireAnchor, hp.anchor]
  rfl

/-- The insertion is there already, or it is made, or the anchor does not stand in exactly one place. -/
theorem apply_cases (hp : p.IsBehind a) (path : String) (content : List Char) :
    (p.apply path content = .ok none ∧ (p.isEmpty = true ∨ p.isIn content = true)) ∨
    (∃ changed, p.apply path content = .ok (some changed) ∧ p.Made content changed) ∨
    (∃ f, p.apply path content = .error f ∧ f.instruction?.isSome = true ∧ ∀ s e, a.places content ≠ [(s, e)]) := by
  cases h : p.isEmpty || p.isIn content with
  | true => exact Or.inl ⟨apply_eq_none h, by simpa using h⟩
  | false =>
    obtain ⟨hempty, hfresh⟩ : p.isEmpty = false ∧ p.isIn content = false := by simpa using h
    rw [apply_eq hp h]
    split
    next hnone => exact Or.inr (Or.inr ⟨_, rfl, rfl, fun s e he => by rw [hnone] at he; contradiction⟩)
    next s e hplaces => exact Or.inr (Or.inl ⟨_, rfl, hempty, hfresh, a, s, e, hp, hplaces, rfl⟩)
    next hmany => exact Or.inr (Or.inr ⟨_, rfl, rfl, fun s e he => hmany s e he⟩)

theorem Made.isIn (h : p.Made content changed) : p.isIn changed = true := by
  obtain ⟨a, s, e, -, -, rfl⟩ := h.split
  exact isIn_iff.mpr ⟨_, _, rfl⟩

theorem places_stop_le (a : Anchor) {s e : Nat} {rest : List (Nat × Nat)}
    (h : a.places content = (s, e) :: rest) : e ≤ content.length := by
  obtain ⟨u, m, v, rfl, rfl, rfl, -⟩ := a.placesFrom_eq_cons h
  simp only [List.length_append]
  omega

/-- The text that was inserted is found where it was put. -/
theorem locate_insertAt (hp : p.IsBehind a) {s e : Nat} (h : a.places content = [(s, e)]) :
    p.locate (p.insertAt content e) = .ok (some e) := by
  have hin : p.isIn (p.insertAt content e) = true := isIn_iff.mpr ⟨_, _, rfl⟩
  obtain ⟨rest, hrest⟩ := a.places_insert h p.chars
  have hlen : (content.take e).length = e := List.length_take_of_le (places_stop_le a h)
  have hbesides : p.besides? (p.insertAt content e) s e = some e := by
    have hdrop : (p.insertAt content e).drop e = p.chars ++ content.drop e := by
      rw [insertAt, List.append_assoc]
      exact List.drop_left' hlen
    rw [besides?, hp.relation, hdrop]
    simp [Text.startsWith_append]
  rw [locate, hin, hp.relation, requireAnchor, hp.anchor, if_neg (by simp)]
  simp only [bind, Except.bind]
  rw [show a.places (p.insertAt content e) = (s, e) :: rest from hrest]
  simp only [List.findSome?_cons, hbesides]

theorem removeAt_insertAt {e : Nat} (h : e ≤ content.length) :
    p.removeAt (p.insertAt content e) e = content := by
  have hlen : (content.take e).length = e := List.length_take_of_le h
  have hend : (content.take e ++ p.chars).length = e + p.chars.length := by
    rw [List.length_append, hlen]
  rw [removeAt, insertAt, List.drop_left' hend, List.append_assoc, List.take_left' hlen,
    List.take_append_drop]

/-- Taking out an insertion that was just made gives the content back. -/
theorem Made.revert (h : p.Made content changed) : p.revert changed = .ok (.removed content) := by
  obtain ⟨a, s, e, hp, hplaces, rfl⟩ := h.split
  rw [Insertion.revert, h.nonempty, locate_insertAt hp hplaces]
  show Except.ok (Reversal.removed (p.removeAt (p.insertAt content e) e)) = _
  rw [removeAt_insertAt (places_stop_le a hplaces)]

/-- Taking out an insertion whose text is not there changes nothing. -/
theorem revert_of_not_isIn (h : p.isIn content = false) : p.revert content = .ok .absent := by
  rw [Insertion.revert, locate, h]
  cases p.isEmpty <;> rfl

/-- No more is taken out than the text of the insertion. -/
theorem length_le_of_revert (h : p.revert content = .ok (.removed changed)) :
    content.length ≤ changed.length + p.chars.length := by
  cases hempty : p.isEmpty with
  | true =>
    rw [Insertion.revert, hempty] at h
    simp at h
  | false =>
    rw [Insertion.revert, hempty] at h
    rcases hloc : p.locate content with f | _ | place
    · rw [hloc] at h
      contradiction
    · rw [hloc] at h
      change Except.ok (if p.isIn content then _ else _) = _ at h
      split at h <;> simp at h
    · rw [hloc] at h
      obtain rfl : p.removeAt content place = changed := by
        change Except.ok (Reversal.removed _) = _ at h
        simpa using h
      rw [removeAt, List.length_append, List.length_take, List.length_drop]
      omega

end Insertion
end Patch
end ModuleLink
