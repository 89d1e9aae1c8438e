import Mathlib.Data.List.Basic
import ModuleLink.Text.Splice

/-!
Edits of a text that is cut into cells.  Edits that start and stop between cells leave every cell whole or take it away
as a whole.
-/

namespace ModuleLink
namespace Text

namespace Edit

/-- The edit takes away what stands at a place. -/
def Covers (e : Edit) (n : Nat) : Prop := e.start ≤ n ∧ n < e.stop

/-- Between two cells of a text that starts at `base`, or at one of its ends. -/
def Boundary (base : Nat) (cells : List (List Char)) (n : Nat) : Prop :=
  ∃ a b, cells = a ++ b ∧ n = base + a.flatten.length

structure Fits (base : Nat) (cells : List (List Char)) (e : Edit) : Prop where
  start : Boundary base cells e.start
  stop : Boundary base cells e.stop
  ordered : e.start ≤ e.stop

end Edit

open Edit

variable {cells a b a' b' : List (List Char)} {base cursor : Nat} {left t : List Char} {es : List Edit}

theorem length_flatten_pos (h : ∀ c ∈ a, c ≠ []) (hne : a ≠ []) : 0 < a.flatten.length := by
  obtain ⟨c, rest, rfl⟩ := List.exists_cons_of_ne_nil hne
  have hc : 0 < c.length := List.length_pos_iff.mpr (h c (by simp))
  rw [List.flatten_cons, List.length_append]
  omega

/-- Of two cuts the earlier one leaves the cells up to the later one. -/
theorem exists_between (hcells : ∀ c ∈ a ++ b, c ≠ []) (h : a ++ b = a' ++ b')
    (hle : a.flatten.length ≤ a'.flatten.length) : ∃ m, a' = a ++ m ∧ b = m ++ b' := by
  rcases List.append_eq_append_iff.mp h with ⟨m, ha, hb⟩ | ⟨m, ha, hb⟩
  · exact ⟨m, ha, hb⟩
  · have hm : m = [] := by
      by_contra hne
      have hpos := length_flatten_pos (fun c hc => hcells c (by simp [ha, hc])) hne
      rw [ha, List.flatten_append, List.length_append] at hle
      omega
    subst hm
    exact ⟨[], by simpa using ha.symm, by simpa using hb.symm⟩

theorem le_start_of_splice (hordered : ∀ e ∈ es, e.start ≤ e.stop) (h : splice cursor left es = .ok t) :
    ∀ e ∈ es, cursor ≤ e.start := by
  induction es generalizing cursor left t with
  | nil => simp
  | cons e es ih =>
    rw [splice] at h
    split at h
    · contradiction
    next hstart =>
      split at h
      next tail htail =>
        have hstop := hordered e (by simp)
        have hrest := ih (fun x hx => hordered x (by simp [hx])) htail
        intro x hx
        rcases List.mem_cons.mp hx with rfl | hx
        · omega
        · have hx := hrest x hx
          omega
      · contradiction

/-- Around the first of some edits the cells that are left fall into those in front of it, those in its place, and those
behind it, which the other edits are made in. -/
theorem exists_cut_of_splice {e : Edit} {post : List Char} (hcells : ∀ c ∈ cells, c ≠ []) (hcut : cells = a ++ b)
    (he : e.Fits base cells) (h : splice (base + a.flatten.length) (b.flatten ++ post) (e :: es) = .ok t) :
    ∃ m d b₂ tail, b = m ++ (d ++ b₂) ∧ cells = a ++ m ++ d ++ b₂ ∧
      e.start = base + (a ++ m).flatten.length ∧ e.stop = base + (a ++ m ++ d).flatten.length ∧
      t = m.flatten ++ e.text ++ tail ∧
      splice (base + (a ++ m ++ d).flatten.length) (b₂.flatten ++ post) es = .ok tail := by
  obtain ⟨⟨a₁, b₁, hcut₁, hstart⟩, ⟨a₂, b₂, hcut₂, hstop⟩, hordered⟩ := he
  rw [splice] at h
  split at h
  · contradiction
  next hcursor =>
    split at h
    next tail htail =>
      obtain rfl := Except.ok.inj h
      obtain ⟨m, rfl, rfl⟩ := exists_between (hcut ▸ hcells) (hcut.symm.trans hcut₁) (by omega)
      obtain ⟨d, rfl, rfl⟩ := exists_between (hcut₁ ▸ hcells) (hcut₁.symm.trans hcut₂) (by omega)
      have hbefore : e.start - (base + a.flatten.length) = m.flatten.length := by
        rw [hstart, List.flatten_append, List.length_append]
        omega
      have hbehind : e.stop - (base + a.flatten.length) = (m ++ d).flatten.length := by
        rw [hstop, List.append_assoc, List.flatten_append, List.length_append]
        omega
      have htake : ((m ++ (d ++ b₂)).flatten ++ post).take (e.start - (base + a.flatten.length)) = m.flatten := by
        rw [hbefore, List.flatten_append, List.append_assoc, List.take_left]
      have hdrop : ((m ++ (d ++ b₂)).flatten ++ post).drop (e.stop - (base + a.flatten.length)) =
          b₂.flatten ++ post := by
        rw [hbehind, ← List.append_assoc m, (List.flatten_append : (m ++ d ++ b₂).flatten = _), List.append_assoc,
          List.drop_left]
      rw [hdrop, hstop] at htail
      exact ⟨m, d, b₂, tail, rfl, hcut₂, hstart, hstop, by rw [htake], htail⟩
    · contradiction

/-- The pieces of the text that edits make: the new texts, and the cells that no edit takes away. -/
structure Pieces (base : Nat) (cells a : List (List Char)) (es : List Edit) (pieces : List (List Char)) : Prop where
  origin : ∀ p ∈ pieces, (∃ e ∈ es, p = e.text) ∨ ∃ c d, cells = c ++ p :: d ∧
    a.flatten.length ≤ c.flatten.length ∧ ∀ e ∈ es, ¬ e.Covers (base + c.flatten.length)
  made : ∀ e ∈ es, e.text ∈ pieces
  kept : ∀ c p d, cells = c ++ p :: d → a.flatten.length ≤ c.flatten.length →
    (∀ e ∈ es, ¬ e.Covers (base + c.flatten.length)) → p ∈ pieces

theorem exists_pieces_of_splice {post : List Char} (hcells : ∀ c ∈ cells, c ≠ []) (hcut : cells = a ++ b)
    (hes : ∀ e ∈ es, e.Fits base cells)
    (h : splice (base + a.flatten.length) (b.flatten ++ post) es = .ok t) :
    ∃ pieces, t = pieces.flatten ++ post ∧ Pieces base cells a es pieces := by
  induction es generalizing a b t with
  | nil =>
    obtain rfl := Except.ok.inj h
    refine ⟨b, rfl, fun p hp => .inr ?_, by simp, fun c p d hcut' hle _ => ?_⟩
    · obtain ⟨m, d, rfl⟩ := List.append_of_mem hp
      exact ⟨a ++ m, d, by rw [hcut, List.append_assoc], by simp, by simp⟩
    · obtain ⟨m, -, rfl⟩ := exists_between (hcut ▸ hcells) (hcut.symm.trans hcut') hle
      simp
  | cons e es ih =>
    have hordered : e.start ≤ e.stop := (hes e (by simp)).ordered
    obtain ⟨m, d, b₂, tail, rfl, hcut₂, hstart, hstop, rfl, htail⟩ :=
      exists_cut_of_splice hcells hcut (hes e (by simp)) h
    have hcut₁ : cells = (a ++ m) ++ (d ++ b₂) := by rw [hcut, List.append_assoc]
    obtain ⟨pieces, rfl, hpieces⟩ := ih hcut₂ (fun x hx => hes x (by simp [hx])) htail
    have hlater := le_start_of_splice (fun x hx => (hes x (by simp [hx])).ordered) htail
    refine ⟨m ++ e.text :: pieces, by simp, fun p hp => ?_, fun x hx => ?_, fun c p d' hcut' hle huncovered => ?_⟩
    · rcases List.mem_append.mp hp with hp | hp
      · obtain ⟨m₁, m₂, rfl⟩ := List.append_of_mem hp
        have hpos : 0 < p.length := List.length_pos_iff.mpr (hcells p (by simp [hcut]))
        refine .inr ⟨a ++ m₁, m₂ ++ (d ++ b₂), by rw [hcut]; simp, by simp, fun x hx hcovers => ?_⟩
        have hbefore : base + (a ++ m₁).flatten.length < e.start := by
          rw [hstart]
          simp only [List.flatten_append, List.flatten_cons, List.length_append]
          omega
        rcases List.mem_cons.mp hx with rfl | hx
        · exact absurd hcovers.1 (by omega)
        · have := hlater x hx
          exact absurd hcovers.1 (by omega)
      · rcases List.mem_cons.mp hp with rfl | hp
        · exact .inl ⟨e, by simp, rfl⟩
        · rcases hpieces.origin p hp with ⟨x, hx, rfl⟩ | ⟨c, d', hcut', hle, huncovered⟩
          · exact .inl ⟨x, by simp [hx], rfl⟩
          · refine .inr ⟨c, d', hcut', ?_, fun x hx => ?_⟩
            · simp only [List.flatten_append, List.length_append] at hle ⊢
              omega
            · rcases List.mem_cons.mp hx with rfl | hx
              · exact fun hcovers => absurd hcovers.2 (by omega)
              · exact huncovered x hx
    · rcases List.mem_cons.mp hx with rfl | hx
      · simp
      · have := hpieces.made x hx
        simp [this]
    · by_cases hbefore : c.flatten.length < (a ++ m).flatten.length
      · obtain ⟨m₁, rfl, -⟩ := exists_between (hcut ▸ hcells) (hcut.symm.trans hcut') hle
        obtain ⟨m₂, hm₂, hsplit⟩ := exists_between (hcut' ▸ hcells) (hcut'.symm.trans hcut₁) (by omega)
        have hne : m₂ ≠ [] := by
          rintro rfl
          rw [hm₂] at hbefore
          simp at hbefore
        obtain ⟨q, m₃, rfl⟩ := List.exists_cons_of_ne_nil hne
        obtain ⟨rfl, -⟩ := List.cons.inj hsplit
        rw [List.append_assoc] at hm₂
        have hm := List.append_cancel_left hm₂
        simp [hm]
      · have hafter : (a ++ m ++ d).flatten.length ≤ c.flatten.length := by
          have := huncovered e (by simp)
          rw [Covers] at this
          omega
        have := hpieces.kept c p d' hcut' hafter fun x hx => huncovered x (by simp [hx])
        simp [this]

/-- Edits behind the front of a text leave the front alone. -/
theorem splice_append {pre rest : List Char} (hes : ∀ e ∈ es, pre.length ≤ e.start ∧ e.start ≤ e.stop)
    (h : splice 0 (pre ++ rest) es = .ok t) :
    ∃ t', t = pre ++ t' ∧ splice pre.length rest es = .ok t' := by
  cases es with
  | nil =>
    obtain rfl := Except.ok.inj h
    exact ⟨rest, rfl, rfl⟩
  | cons e es =>
    obtain ⟨hstart, hstop⟩ := hes e (by simp)
    have htake : (pre ++ rest).take (e.start - 0) = pre ++ rest.take (e.start - pre.length) := by
      rw [Nat.sub_zero, List.take_append, List.take_of_length_le hstart]
    have hdrop : (pre ++ rest).drop (e.stop - 0) = rest.drop (e.stop - pre.length) := by
      rw [Nat.sub_zero, List.drop_append, List.drop_of_length_le (by omega), List.nil_append]
    rw [splice, if_neg (by omega), htake, hdrop] at h
    split at h
    next tail htail =>
      obtain rfl := Except.ok.inj h
      refine ⟨rest.take (e.start - pre.length) ++ e.text ++ tail, by simp, ?_⟩
      rw [splice, if_neg (by omega), htail]
    · contradiction

/-- What edits make of the cells between the front of a text and its end. -/
theorem exists_pieces_of_applyEdits {pre post : List Char} (hcells : ∀ c ∈ cells, c ≠ [])
    (hes : ∀ e ∈ es, e.Fits pre.length cells) (h : applyEdits (pre ++ cells.flatten ++ post) es = .ok t) :
    ∃ pieces, t = pre ++ pieces.flatten ++ post ∧ Pieces pre.length cells [] es pieces := by
  have hmem (e : Edit) : e ∈ es.mergeSort Edit.before ↔ e ∈ es := List.mem_mergeSort
  rw [applyEdits, List.append_assoc] at h
  obtain ⟨t', rfl, hsplice⟩ := splice_append (fun e he => by
    obtain ⟨⟨a, b, -, hstart⟩, -, hordered⟩ := hes e ((hmem e).mp he)
    exact ⟨by omega, hordered⟩) h
  obtain ⟨pieces, rfl, hpieces⟩ := exists_pieces_of_splice (a := []) hcells rfl
    (fun e he => hes e ((hmem e).mp he)) hsplice
  refine ⟨pieces, by rw [List.append_assoc], ?_⟩
  obtain ⟨horigin, hmade, hkept⟩ := hpieces
  simp only [hmem] at horigin hmade hkept
  exact ⟨horigin, hmade, hkept⟩

end Text
end ModuleLink
