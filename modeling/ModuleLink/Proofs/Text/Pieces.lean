import ModuleLink.Proofs.Text.Cells

/-!
The pieces of an edited text, each as often as it is there: what the edits put in, and the cells that none of them takes
away.
-/

namespace ModuleLink
namespace Text

open Edit

variable {α : Type} {text : α → List Char} {cells a b : List α} {es : List Edit} {e : Edit} {n base : Nat}
  {t post : List Char}

instance (e : Edit) (n : Nat) : Decidable (e.Covers n) := inferInstanceAs (Decidable (_ ∧ _))

/-- The cells that no edit takes away, where the first one starts at `n`. -/
def spared (text : α → List Char) (es : List Edit) : (n : Nat) → (cells : List α) → List α
  | _, [] => []
  | n, c :: cells =>
    if ∃ e ∈ es, e.Covers n then spared text es (n + (text c).length) cells
    else c :: spared text es (n + (text c).length) cells

theorem spared_append (n : Nat) (a b : List α) :
    spared text es n (a ++ b) = spared text es n a ++ spared text es (n + (a.map text).flatten.length) b := by
  induction a generalizing n with
  | nil => rfl
  | cons c a ih =>
    rw [List.cons_append, spared, spared, List.map_cons, List.flatten_cons, List.length_append, ← Nat.add_assoc, ih]
    split <;> rfl

theorem spared_sublist (text : α → List Char) (es : List Edit) (n : Nat) (cells : List α) :
    (spared text es n cells).Sublist cells := by
  induction cells generalizing n with
  | nil => exact .slnil
  | cons c cells ih =>
    rw [spared]
    split
    · exact (ih _).cons c
    · exact (ih _).cons_cons c

/-- Being spared is a matter of what the texts are. -/
theorem map_spared (text : α → List Char) (es : List Edit) (n : Nat) (cells : List α) :
    (spared text es n cells).map text = spared id es n (cells.map text) := by
  induction cells generalizing n with
  | nil => rfl
  | cons c cells ih =>
    rw [List.map_cons, spared, spared, id_eq, ← ih]
    split <;> rfl

theorem spared_congr {es' : List Edit} (h : ∀ k, n ≤ k → ((∃ e ∈ es, e.Covers k) ↔ ∃ e ∈ es', e.Covers k)) :
    spared text es n cells = spared text es' n cells := by
  induction cells generalizing n with
  | nil => rfl
  | cons c cells ih =>
    rw [spared, spared, ih fun k hk => h k (by omega)]
    simp only [h n (Nat.le_refl n)]

/-- Cells in front of all edits stay. -/
theorem spared_of_le (hcells : ∀ c ∈ cells, text c ≠ [])
    (h : ∀ e ∈ es, n + (cells.map text).flatten.length ≤ e.start) : spared text es n cells = cells := by
  induction cells generalizing n with
  | nil => rfl
  | cons c cells ih =>
    have hpos : 0 < (text c).length := List.length_pos_iff.mpr (hcells c (by simp))
    rw [List.map_cons, List.flatten_cons, List.length_append] at h
    have huncovered : ¬∃ e ∈ es, e.Covers n := by
      rintro ⟨e, he, hstart, -⟩
      have := h e he
      omega
    rw [spared, if_neg huncovered, ih (fun x hx => hcells x (by simp [hx])) fun e he => by
      have := h e he
      omega]

/-- The cells in the place of an edit go. -/
theorem spared_of_edit (hcells : ∀ c ∈ cells, text c ≠ []) (he : e ∈ es) (hstart : e.start ≤ n)
    (hstop : n + (cells.map text).flatten.length ≤ e.stop) : spared text es n cells = [] := by
  induction cells generalizing n with
  | nil => rfl
  | cons c cells ih =>
    have hpos : 0 < (text c).length := List.length_pos_iff.mpr (hcells c (by simp))
    rw [List.map_cons, List.flatten_cons, List.length_append] at hstop
    rw [spared, if_pos ⟨e, he, hstart, by omega⟩]
    exact ih (fun x hx => hcells x (by simp [hx])) (by omega) (by omega)

/-- Edits put in their texts and leave the cells that they spare, each as often as it is there. -/
theorem exists_perm_of_splice {cells a b : List (List Char)} (hcells : ∀ c ∈ cells, c ≠ []) (hcut : cells = a ++ b)
    (hes : ∀ e ∈ es, e.Fits base cells)
    (h : splice (base + a.flatten.length) (b.flatten ++ post) es = .ok t) :
    ∃ pieces : List (List Char), t = pieces.flatten ++ post ∧
      pieces.Perm (es.map Edit.text ++ spared id es (base + a.flatten.length) b) := by
  induction es generalizing a b t with
  | nil =>
    obtain rfl := Except.ok.inj h
    have hall : spared id [] (base + a.flatten.length) b = b :=
      spared_of_le (fun c hc => hcells c (hcut ▸ List.mem_append_right a hc)) (by simp)
    exact ⟨b, rfl, by rw [hall]; rfl⟩
  | cons e es ih =>
    have hordered : ∀ x ∈ e :: es, x.start ≤ x.stop := fun x hx => (hes x hx).ordered
    obtain ⟨m, d, b₂, tail, rfl, hcut₂, hstart, hstop, rfl, htail⟩ :=
      exists_cut_of_splice hcells hcut (hes e (by simp)) h
    have hmem : ∀ c ∈ m ++ (d ++ b₂), c ≠ [] := fun c hc => hcells c (hcut ▸ List.mem_append_right a hc)
    obtain ⟨pieces, rfl, hpieces⟩ := ih hcut₂ (fun x hx => hes x (by simp [hx])) htail
    have hlater := le_start_of_splice (fun x hx => hordered x (by simp [hx])) htail
    rw [← hstop] at hpieces hlater
    have hfrom : base + a.flatten.length + m.flatten.length = e.start := by
      rw [hstart, List.flatten_append, List.length_append, Nat.add_assoc]
    have hto : e.start + d.flatten.length = e.stop := by
      rw [← hfrom, hstop]
      simp only [List.flatten_append, List.length_append, Nat.add_assoc]
    have hfront : spared id (e :: es) (base + a.flatten.length) m = m := by
      refine spared_of_le (fun c hc => hmem c (by simp [hc])) fun x hx => ?_
      rw [List.map_id, hfrom]
      rcases List.mem_cons.mp hx with rfl | hx
      · exact Nat.le_refl _
      · exact Nat.le_trans (hordered e (by simp)) (hlater x hx)
    have hplace : spared id (e :: es) e.start d = [] :=
      spared_of_edit (fun c hc => hmem c (by simp [hc])) (by simp) (Nat.le_refl _) (by rw [List.map_id]; omega)
    have hbehind : spared id (e :: es) e.stop b₂ = spared id es e.stop b₂ := by
      refine spared_congr fun k hk => ?_
      rw [List.exists_mem_cons_iff, or_iff_right]
      exact fun hcovers => absurd hcovers.2 (by omega)
    have hspared : spared id (e :: es) (base + a.flatten.length) (m ++ (d ++ b₂)) = m ++ spared id es e.stop b₂ := by
      rw [spared_append, spared_append, List.map_id, List.map_id, hfrom, hto, hfront, hplace, hbehind]
      rfl
    refine ⟨m ++ e.text :: pieces, by simp, ?_⟩
    rw [hspared]
    calc List.Perm (m ++ e.text :: pieces) (e.text :: (m ++ pieces)) := List.perm_middle
      List.Perm _ (e.text :: (m ++ (es.map Edit.text ++ spared id es e.stop b₂))) := (hpieces.append_left m).cons _
      List.Perm _ (e.text :: (es.map Edit.text ++ (m ++ spared id es e.stop b₂))) :=
        (List.perm_append_comm_assoc _ _ _).cons _

/-- What edits make of the cells between the front of a text and its end. -/
theorem exists_perm_of_applyEdits {cells : List (List Char)} {pre : List Char} (hcells : ∀ c ∈ cells, c ≠ [])
    (hes : ∀ e ∈ es, e.Fits pre.length cells) (h : applyEdits (pre ++ cells.flatten ++ post) es = .ok t) :
    ∃ pieces : List (List Char), t = pre ++ pieces.flatten ++ post ∧
      pieces.Perm (es.map Edit.text ++ spared id es pre.length cells) := by
  have hmem (e : Edit) : e ∈ es.mergeSort Edit.before ↔ e ∈ es := List.mem_mergeSort
  rw [applyEdits, List.append_assoc] at h
  obtain ⟨t', rfl, hsplice⟩ := splice_append (fun e he => by
    obtain ⟨⟨a, b, -, hstart⟩, -, hordered⟩ := hes e ((hmem e).mp he)
    exact ⟨by omega, hordered⟩) h
  obtain ⟨pieces, rfl, hpieces⟩ := exists_perm_of_splice (a := []) hcells rfl
    (fun e he => hes e ((hmem e).mp he)) hsplice
  refine ⟨pieces, by rw [List.append_assoc], hpieces.trans ?_⟩
  have hspared : spared id (es.mergeSort Edit.before) pre.length cells = spared id es pre.length cells :=
    spared_congr fun k _ => by simp only [hmem]
  exact ((List.mergeSort_perm es Edit.before).map Edit.text).append (.of_eq hspared)

end Text
end ModuleLink
