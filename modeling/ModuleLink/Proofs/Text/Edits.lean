import Mathlib
import ModuleLink.Proofs.Text.Cells

/-!
When edits can all be made, and what they make of a text that is cut into cells: every cell is kept, or stands under one
edit that takes its place, and the texts that are only put in come before it.
-/

namespace ModuleLink
namespace Text

open Edit

variable {text left post t : List Char} {cells a b m : List (List Char)} {es es' : List Edit} {e e' : Edit}
  {base cursor n : Nat}

/-! ## Edits that leave each other alone -/

namespace Edit

/-- One of the edits stops before the other starts. -/
def Apart (e e' : Edit) : Prop := e.stop ≤ e'.start ∨ e'.stop ≤ e.start

theorem Apart.symm (h : e.Apart e') : e'.Apart e := Or.symm h

instance : Std.Symm Edit.Apart := ⟨fun _ _ => Apart.symm⟩

/-- Two edits that only put text in. -/
theorem apart_of_points (h : e.stop = e.start) (h' : e'.stop = e'.start) : e.Apart e' := by
  rw [Apart, h, h']
  exact Nat.le_total _ _

end Edit

theorem exists_splice_iff (hordered : ∀ e ∈ es, e.start ≤ e.stop) :
    (∃ t, splice cursor left es = .ok t) ↔
      (∀ e ∈ es, cursor ≤ e.start) ∧ es.Pairwise fun a b => a.stop ≤ b.start := by
  induction es generalizing cursor left with
  | nil => exact ⟨fun _ => ⟨by simp, .nil⟩, fun _ => ⟨left, rfl⟩⟩
  | cons e es ih =>
    have hrest : (∃ t, splice e.stop (left.drop (e.stop - cursor)) es = .ok t) ↔
        (∀ x ∈ es, e.stop ≤ x.start) ∧ es.Pairwise fun a b => a.stop ≤ b.start :=
      ih fun x hx => hordered x (by simp [hx])
    have he := hordered e (by simp)
    rw [splice, List.pairwise_cons]
    constructor
    · rintro ⟨t, ht⟩
      split at ht
      · contradiction
      next hcursor =>
        split at ht
        next tail htail =>
          obtain ⟨hlater, hpairwise⟩ := hrest.mp ⟨tail, htail⟩
          refine ⟨fun x hx => ?_, hlater, hpairwise⟩
          rcases List.mem_cons.mp hx with rfl | hx
          · omega
          · have := hlater x hx
            omega
        · contradiction
    · rintro ⟨hcursor, hlater, hpairwise⟩
      obtain ⟨tail, htail⟩ := hrest.mpr ⟨hlater, hpairwise⟩
      rw [if_neg (Nat.not_lt.mpr (hcursor e (by simp))), htail]
      exact ⟨_, rfl⟩

theorem pairwise_mergeSort_before (es : List Edit) :
    (es.mergeSort Edit.before).Pairwise fun a b => Edit.before a b = true := by
  refine List.pairwise_mergeSort (fun a b c hab hbc => ?_) (fun a b => ?_) es
  · simp only [before, Bool.or_eq_true, Bool.and_eq_true, decide_eq_true_eq, beq_iff_eq] at hab hbc ⊢
    omega
  · simp only [before, Bool.or_eq_true, Bool.and_eq_true, decide_eq_true_eq, beq_iff_eq]
    omega

/-- In the order in which they are made, edits that leave each other alone follow each other. -/
theorem pairwise_mergeSort_iff (hordered : ∀ e ∈ es, e.start ≤ e.stop) :
    ((es.mergeSort Edit.before).Pairwise fun a b => a.stop ≤ b.start) ↔ es.Pairwise Edit.Apart := by
  have hperm : (es.mergeSort Edit.before).Perm es := List.mergeSort_perm es Edit.before
  have hsorted := pairwise_mergeSort_before es
  rw [← hperm.pairwise_iff fun h => Edit.Apart.symm h]
  constructor
  · exact fun h => h.imp fun hle => .inl hle
  · intro h
    refine (hsorted.and h).imp_of_mem fun {a b} ha hb hab => ?_
    obtain ⟨hbefore, hapart⟩ := hab
    have ha := hordered a (hperm.mem_iff.mp ha)
    have hb := hordered b (hperm.mem_iff.mp hb)
    simp only [before, Bool.or_eq_true, Bool.and_eq_true, decide_eq_true_eq, beq_iff_eq] at hbefore
    rcases hapart with hapart | hapart <;> omega

/-- Edits can be made exactly when each two of them leave each other alone. -/
theorem exists_applyEdits_iff (hordered : ∀ e ∈ es, e.start ≤ e.stop) :
    (∃ t, applyEdits text es = .ok t) ↔ es.Pairwise Edit.Apart := by
  rw [applyEdits, exists_splice_iff fun e he => hordered e (List.mem_mergeSort.mp he), pairwise_mergeSort_iff hordered]
  exact and_iff_right fun e _ => Nat.zero_le _

/-! ## Cells -/

/-- What is put in between two cells. -/
def putsAt (es : List Edit) (n : Nat) : List Char :=
  (es.filter fun e => e.start == n && e.stop == n).flatMap Edit.text

/-- What becomes of a cell. -/
def replaced (es : List Edit) (n : Nat) (cell : List Char) : List Char :=
  match es.find? fun e => decide (e.start ≤ n ∧ n < e.stop) with
  | some e => if e.start = n then e.text else []
  | none => cell

/-- What becomes of cells, the first of which starts at `n`. -/
def written (es : List Edit) : (n : Nat) → (cells : List (List Char)) → List Char
  | n, [] => putsAt es n
  | n, cell :: cells => putsAt es n ++ (replaced es n cell ++ written es (n + cell.length) cells)

theorem replaced_of_not_covers {cell : List Char} (h : ∀ e ∈ es, ¬ e.Covers n) : replaced es n cell = cell := by
  have hnone : (es.find? fun e => decide (e.start ≤ n ∧ n < e.stop)) = none :=
    List.find?_eq_none.mpr fun e he hcovers => h e he (by simpa [Edit.Covers] using hcovers)
  rw [replaced, hnone]

/-- Of edits that follow each other at most one takes away what stands at a place. -/
theorem replaced_of_covers {cell : List Char} (hpairwise : es.Pairwise fun a b => a.stop ≤ b.start) (he : e ∈ es)
    (hcovers : e.Covers n) : replaced es n cell = if e.start = n then e.text else [] := by
  have hfind : (es.find? fun e => decide (e.start ≤ n ∧ n < e.stop)) = some e := by
    induction es with
    | nil => contradiction
    | cons x es ih =>
      obtain ⟨hlater, hpairwise⟩ := List.pairwise_cons.mp hpairwise
      rcases List.mem_cons.mp he with rfl | he
      · exact List.find?_cons_of_pos (decide_eq_true (show e.start ≤ n ∧ n < e.stop from hcovers))
      · have hx : ¬ (x.start ≤ n ∧ n < x.stop) := by
          have hstop := hlater e he
          have hstart := hcovers.1
          omega
        rw [List.find?_cons_of_neg (by simpa using hx)]
        exact ih hpairwise he
  rw [replaced, hfind]

theorem putsAt_of_lt (h : ∀ e ∈ es, n < e.start) : putsAt es n = [] := by
  have hnone : (es.filter fun e => e.start == n && e.stop == n) = [] := by
    refine List.filter_eq_nil_iff.mpr fun e he => ?_
    have := h e he
    simp only [Bool.and_eq_true, beq_iff_eq]
    omega
  rw [putsAt, hnone, List.flatMap_nil]

theorem putsAt_cons_of_ne (h : e.start ≠ n ∨ e.stop ≠ n) : putsAt (e :: es) n = putsAt es n := by
  rw [putsAt, List.filter_cons_of_neg]
  · rfl
  · simp only [Bool.and_eq_true, beq_iff_eq]
    omega

theorem replaced_cons_of_not_covers {cell : List Char} (h : ¬ e.Covers n) :
    replaced (e :: es) n cell = replaced es n cell := by
  rw [replaced, List.find?_cons_of_neg]
  · rfl
  · simpa [Edit.Covers] using h

theorem written_congr (hputs : ∀ k, n ≤ k → putsAt es k = putsAt es' k)
    (hreplaced : ∀ k cell, n ≤ k → replaced es k cell = replaced es' k cell) (cells : List (List Char)) :
    written es n cells = written es' n cells := by
  induction cells generalizing n with
  | nil => exact hputs n (Nat.le_refl n)
  | cons cell cells ih =>
    rw [written, written, hputs n (Nat.le_refl n), hreplaced n cell (Nat.le_refl n),
      ih (fun k hk => hputs k (by omega)) fun k c hk => hreplaced k c (by omega)]

theorem written_nil (n : Nat) (cells : List (List Char)) : written [] n cells = cells.flatten := by
  induction cells generalizing n with
  | nil => rfl
  | cons cell cells ih =>
    rw [written, ih]
    rfl

/-- Edits at one place are made in the order they come in. -/
theorem putsAt_mergeSort (es : List Edit) (n : Nat) : putsAt (es.mergeSort Edit.before) n = putsAt es n := by
  generalize hpoint : (fun e : Edit => e.start == n && e.stop == n) = point
  have hsame : (es.filter point).Pairwise fun a b => Edit.before a b = true := by
    refine List.pairwise_of_forall_mem_list fun a ha b hb => ?_
    have ha := (List.mem_filter.mp ha).2
    have hb := (List.mem_filter.mp hb).2
    rw [← hpoint] at ha hb
    simp only [Bool.and_eq_true, beq_iff_eq] at ha hb
    simp only [before, ha, hb, Nat.lt_irrefl, decide_false, Bool.false_or, beq_self_eq_true, Nat.le_refl, decide_true,
      Bool.and_true]
  have hsub : (es.filter point).Sublist (es.mergeSort Edit.before) := by
    refine List.sublist_mergeSort (fun a b c hab hbc => ?_) (fun a b => ?_) hsame List.filter_sublist
    · simp only [before, Bool.or_eq_true, Bool.and_eq_true, decide_eq_true_eq, beq_iff_eq] at hab hbc ⊢
      omega
    · simp only [before, Bool.or_eq_true, Bool.and_eq_true, decide_eq_true_eq, beq_iff_eq]
      omega
  have hfiltered := hsub.filter point
  rw [List.filter_filter] at hfiltered
  simp only [Bool.and_self] at hfiltered
  have hlength : (es.filter point).length = ((es.mergeSort Edit.before).filter point).length :=
    ((List.mergeSort_perm es Edit.before).filter point).length_eq.symm
  rw [putsAt, putsAt, hpoint, hfiltered.eq_of_length hlength]

/-- What becomes of cells that others follow. -/
def piecesFrom (es : List Edit) : (n : Nat) → (cells : List (List Char)) → List Char
  | _, [] => []
  | n, cell :: cells => putsAt es n ++ (replaced es n cell ++ piecesFrom es (n + cell.length) cells)

theorem written_append (n : Nat) (a b : List (List Char)) :
    written es n (a ++ b) = piecesFrom es n a ++ written es (n + a.flatten.length) b := by
  induction a generalizing n with
  | nil => rfl
  | cons cell a ih =>
    rw [List.cons_append, written, ih, piecesFrom, List.flatten_cons, List.length_append, Nat.add_assoc]
    simp only [List.append_assoc]

theorem written_eq (n : Nat) (cells : List (List Char)) :
    written es n cells = piecesFrom es n cells ++ putsAt es (n + cells.flatten.length) := by
  have h := @written_append es n cells []
  rwa [List.append_nil] at h

theorem piecesFrom_append (n : Nat) (a b : List (List Char)) :
    piecesFrom es n (a ++ b) = piecesFrom es n a ++ piecesFrom es (n + a.flatten.length) b := by
  induction a generalizing n with
  | nil => rfl
  | cons cell a ih =>
    rw [List.cons_append, piecesFrom, ih, piecesFrom, List.flatten_cons, List.length_append, Nat.add_assoc]
    simp only [List.append_assoc]

/-- Cells in front of all edits stay. -/
theorem written_append_of_le (hcells : ∀ c ∈ m, c ≠ []) (h : ∀ e ∈ es, n + m.flatten.length ≤ e.start)
    (b : List (List Char)) : written es n (m ++ b) = m.flatten ++ written es (n + m.flatten.length) b := by
  induction m generalizing n with
  | nil => rfl
  | cons cell m ih =>
    have hpos : 0 < cell.length := List.length_pos_iff.mpr (hcells cell (by simp))
    rw [List.flatten_cons, List.length_append] at h ⊢
    have hputs : putsAt es n = [] := putsAt_of_lt fun e he => by
      have := h e he
      omega
    have hreplaced : replaced es n cell = cell := replaced_of_not_covers fun e he hcovers => by
      have := h e he
      have := hcovers.1
      omega
    rw [List.cons_append, written, hputs, hreplaced, ih (fun c hc => hcells c (by simp [hc])) fun e he => by
      have := h e he
      omega]
    simp only [List.nil_append, List.append_assoc, Nat.add_assoc]

/-- A text that is only put in comes first. -/
theorem written_cons_of_point (hstart : e.start = n) (hstop : e.stop = n) (hcells : ∀ c ∈ cells, c ≠ []) :
    written (e :: es) n cells = e.text ++ written es n cells := by
  have hputs : putsAt (e :: es) n = e.text ++ putsAt es n := by
    rw [putsAt, List.filter_cons_of_pos (by simp [hstart, hstop]), List.flatMap_cons]
    rfl
  cases cells with
  | nil => exact hputs
  | cons cell cells =>
    have hpos : 0 < cell.length := List.length_pos_iff.mpr (hcells cell (by simp))
    have hbehind : written (e :: es) (n + cell.length) cells = written es (n + cell.length) cells := by
      refine written_congr (fun k hk => putsAt_cons_of_ne (.inl ?_)) (fun k c hk => replaced_cons_of_not_covers ?_) cells
      · omega
      · rw [Edit.Covers]
        omega
    rw [written, written, hputs, replaced_cons_of_not_covers (by rw [Edit.Covers]; omega), hbehind, List.append_assoc]

/-- An edit puts its text in the place of cells. -/
theorem written_cons_of_cells (hstart : e.start = n) (hstop : e.stop = n + m.flatten.length) (hne : m ≠ [])
    (hcells : ∀ c ∈ m, c ≠ []) (hlater : ∀ x ∈ es, e.stop ≤ x.start) (b : List (List Char)) :
    written (e :: es) n (m ++ b) = e.text ++ written es e.stop b := by
  have hputs {k : Nat} (hk : k < e.stop) : putsAt (e :: es) k = [] := by
    rw [putsAt_cons_of_ne (.inr (Nat.ne_of_gt hk))]
    exact putsAt_of_lt fun x hx => Nat.lt_of_lt_of_le hk (hlater x hx)
  have hfind {k : Nat} (hfrom : n ≤ k) (hk : k < e.stop) :
      ((e :: es).find? fun e => decide (e.start ≤ k ∧ k < e.stop)) = some e :=
    List.find?_cons_of_pos (decide_eq_true (hstart ▸ ⟨hfrom, hk⟩))
  -- The cells behind the first one are taken away without a trace.
  have hrest (m : List (List Char)) (hcells : ∀ c ∈ m, c ≠ []) (k : Nat) (hk : n < k)
      (hend : e.stop = k + m.flatten.length) : written (e :: es) k (m ++ b) = written es e.stop b := by
    induction m generalizing k with
    | nil =>
      rw [List.flatten_nil, List.length_nil, Nat.add_zero] at hend
      subst hend
      refine written_congr (fun j hj => putsAt_cons_of_ne (.inl ?_)) (fun j c hj => replaced_cons_of_not_covers ?_) b
      · omega
      · rw [Edit.Covers]
        omega
    | cons cell m ih =>
      have hpos : 0 < cell.length := List.length_pos_iff.mpr (hcells cell (by simp))
      rw [List.flatten_cons, List.length_append] at hend
      rw [List.cons_append, written, hputs (by omega), replaced, hfind (by omega) (by omega),
        ih (fun c hc => hcells c (by simp [hc])) (k + cell.length) (by omega) (by omega)]
      simp only
      rw [if_neg (by omega)]
      rfl
  obtain ⟨cell, m, rfl⟩ := List.exists_cons_of_ne_nil hne
  have hpos : 0 < cell.length := List.length_pos_iff.mpr (hcells cell (by simp))
  rw [List.flatten_cons, List.length_append] at hstop
  rw [List.cons_append, written, hputs (by omega), replaced, hfind (Nat.le_refl n) (by omega),
    hrest m (fun c hc => hcells c (by simp [hc])) (n + cell.length) (by omega) (by omega)]
  simp only
  rw [if_pos hstart]
  rfl

/-! ## Edits of cells -/

theorem splice_eq_written (hcells : ∀ c ∈ cells, c ≠ []) (hcut : cells = a ++ b) (hes : ∀ e ∈ es, e.Fits base cells)
    (h : splice (base + a.flatten.length) (b.flatten ++ post) es = .ok t) :
    t = written es (base + a.flatten.length) b ++ post := by
  induction es generalizing a b t with
  | nil =>
    obtain rfl := Except.ok.inj h
    rw [written_nil]
  | cons e es ih =>
    have hall : ∀ x ∈ e :: es, x.start ≤ x.stop := fun x hx => (hes x hx).ordered
    have hlater : ∀ x ∈ es, e.stop ≤ x.start :=
      (List.pairwise_cons.mp ((exists_splice_iff hall).mp ⟨t, h⟩).2).1
    obtain ⟨m, d, b₂, tail, rfl, hcut₂, hstart, hstop, rfl, htail⟩ :=
      exists_cut_of_splice hcells hcut (hes e (by simp)) h
    have hmem : ∀ c ∈ m ++ (d ++ b₂), c ≠ [] := fun c hc => hcells c (hcut ▸ List.mem_append_right a hc)
    rw [ih hcut₂ (fun x hx => hes x (by simp [hx])) htail, ← hstop]
    have hfrom : base + a.flatten.length + m.flatten.length = e.start := by
      rw [hstart, List.flatten_append, List.length_append, Nat.add_assoc]
    rw [written_append_of_le (fun c hc => hmem c (by simp [hc])) (fun x hx => ?_), hfrom]
    · by_cases hd : d = []
      · subst hd
        have hpoint : e.stop = e.start := by rw [hstart, hstop, List.append_nil]
        rw [List.nil_append, written_cons_of_point rfl hpoint fun c hc => hmem c (by simp [hc]), hpoint]
        simp only [List.append_assoc]
      · have hlen : e.stop = e.start + d.flatten.length := by
          rw [hstart, hstop, List.flatten_append, List.length_append, Nat.add_assoc]
        rw [written_cons_of_cells rfl hlen hd (fun c hc => hmem c (by simp [hc])) hlater]
        simp only [List.append_assoc]
    · rw [hfrom]
      rcases List.mem_cons.mp hx with rfl | hx
      · exact Nat.le_refl _
      · exact Nat.le_trans (hall e (by simp)) (hlater x hx)

/-- What edits make of the cells between the front of a text and its end. -/
theorem applyEdits_eq_written {pre : List Char} (hcells : ∀ c ∈ cells, c ≠ [])
    (hes : ∀ e ∈ es, e.Fits pre.length cells) (h : applyEdits (pre ++ cells.flatten ++ post) es = .ok t) :
    t = pre ++ written (es.mergeSort Edit.before) pre.length cells ++ post := by
  have hmem (e : Edit) : e ∈ es.mergeSort Edit.before ↔ e ∈ es := List.mem_mergeSort
  rw [applyEdits, List.append_assoc] at h
  obtain ⟨t', rfl, hsplice⟩ := splice_append (fun e he => by
    obtain ⟨⟨a, b, -, hstart⟩, -, hordered⟩ := hes e ((hmem e).mp he)
    exact ⟨by omega, hordered⟩) h
  rw [List.append_assoc]
  exact congrArg _ (splice_eq_written (a := []) hcells rfl (fun e he => hes e ((hmem e).mp he)) hsplice)

end Text
end ModuleLink
