import Mathlib
import ModuleLink.Proofs.Text.Search

/-!
How often a text stands in another one, whether the places overlap or not.  The number adds up over the parts of a text,
if none of the places goes over a cut.  A text with one place is found there by every search.
-/

namespace ModuleLink
namespace Text

variable {p cs a b x y : List Char}

/-- The number of places of a text `p` that is not empty. -/
def hits (p : List Char) : List Char → Nat
  | [] => 0
  | c :: cs => (if startsWith p (c :: cs) then 1 else 0) + hits p cs

theorem startsWith_iff_prefix : startsWith p cs = true ↔ p <+: cs := by
  rw [startsWith_iff]
  exact ⟨fun ⟨r, hr⟩ => ⟨r, hr.symm⟩, fun ⟨r, hr⟩ => ⟨r, hr.symm⟩⟩

theorem endsWith_iff : endsWith p cs = true ↔ ∃ l, cs = l ++ p := by
  rw [endsWith, startsWith_iff_prefix, List.reverse_prefix]
  exact ⟨fun ⟨l, hl⟩ => ⟨l, hl.symm⟩, fun ⟨l, hl⟩ => ⟨l, hl.symm⟩⟩

theorem occursIn_iff_infix : occursIn p cs = true ↔ p <:+: cs := by
  rw [occursIn_iff]
  exact ⟨fun ⟨a, b, h⟩ => ⟨a, b, h.symm⟩, fun ⟨a, b, h⟩ => ⟨a, b, h.symm⟩⟩

/-! ## No place, and one place -/

theorem hits_eq_zero_iff (hp : p ≠ []) : hits p cs = 0 ↔ ¬p <:+: cs := by
  induction cs with
  | nil => simp [hits, hp]
  | cons c cs ih =>
    rw [hits, Nat.add_eq_zero_iff, ih, List.infix_cons_iff, not_or, ← startsWith_iff_prefix]
    simp

theorem hits_eq_zero_of_not_occursIn (hp : p ≠ []) (h : occursIn p cs = false) : hits p cs = 0 := by
  rw [hits_eq_zero_iff hp, ← occursIn_iff_infix, h]
  simp

theorem hits_eq_zero_of_append (hp : p ≠ []) (h : occursIn p (a ++ b) = false) : hits p a = 0 ∧ hits p b = 0 := by
  have hnone : ¬p <:+: a ++ b := by
    rw [← occursIn_iff_infix, h]
    simp
  rw [hits_eq_zero_iff hp, hits_eq_zero_iff hp]
  exact ⟨fun ha => hnone (ha.trans (List.prefix_append a b).isInfix),
    fun hb => hnone (hb.trans (List.suffix_append a b).isInfix)⟩

theorem hits_eq_zero_of_notMem {c : Char} (hc : c ∈ p) (hcs : c ∉ cs) : hits p cs = 0 := by
  rw [hits_eq_zero_iff (List.ne_nil_of_mem hc)]
  exact fun hpart => hcs (hpart.subset hc)

theorem hits_pos (hp : p ≠ []) (h : cs = x ++ (p ++ y)) : 0 < hits p cs := by
  rw [Nat.pos_iff_ne_zero, Ne, hits_eq_zero_iff hp, not_not]
  exact ⟨x, y, by rw [h, List.append_assoc]⟩

/-- A text has one place, if it stands somewhere and nowhere else. -/
theorem hits_eq_one (hp : p ≠ []) (h : cs = x ++ (p ++ y)) (honly : ∀ x' y', cs = x' ++ (p ++ y') → x' = x) :
    hits p cs = 1 := by
  induction cs generalizing x with
  | nil => exact absurd (List.append_eq_nil_iff.mp (List.append_eq_nil_iff.mp h.symm).2).1 hp
  | cons c cs ih =>
    rw [hits]
    cases x with
    | nil =>
      have hhere : startsWith p (c :: cs) = true := startsWith_iff.mpr ⟨y, h⟩
      have hrest : hits p cs = 0 := by
        rw [hits_eq_zero_iff hp]
        rintro ⟨u, v, rfl⟩
        have := honly (c :: u) v (by simp)
        contradiction
      rw [if_pos hhere, hrest]
    | cons d x =>
      obtain ⟨rfl, hcs⟩ := List.cons.inj h
      have hhere : ¬startsWith p (c :: cs) = true := by
        intro hs
        obtain ⟨r, hr⟩ := startsWith_iff.mp hs
        have := honly [] r hr
        contradiction
      have hrest := ih hcs fun x' y' e => (List.cons.inj (honly (c :: x') y' (by rw [e]; rfl))).2
      rw [if_neg hhere, hrest]

theorem hits_self (hp : p ≠ []) : hits p p = 1 := by
  refine hits_eq_one (x := []) (y := []) hp (by simp) fun x' y' h => ?_
  have hlength := congrArg List.length h
  simp only [List.length_append] at hlength
  exact List.length_eq_zero_iff.mp (by omega)

theorem two_le_hits (hp : p ≠ []) {x' y' : List Char} (h : cs = x ++ (p ++ y)) (h' : cs = x' ++ (p ++ y'))
    (hlt : x.length < x'.length) : 2 ≤ hits p cs := by
  induction cs generalizing x x' with
  | nil => exact absurd (List.append_eq_nil_iff.mp (List.append_eq_nil_iff.mp h.symm).2).1 hp
  | cons c cs ih =>
    cases x' with
    | nil => simp at hlt
    | cons d' x' =>
      obtain ⟨rfl, hcs'⟩ := List.cons.inj h'
      rw [hits]
      cases x with
      | nil =>
        have hhere : startsWith p (c :: cs) = true := startsWith_iff.mpr ⟨y, h⟩
        have hrest := hits_pos hp hcs'
        rw [if_pos hhere]
        omega
      | cons d x =>
        obtain ⟨rfl, hcs⟩ := List.cons.inj h
        have hrest := ih hcs hcs' (by simpa using hlt)
        omega

/-- The one place of a text is the only one. -/
theorem eq_of_hits_eq_one (hp : p ≠ []) {x' y' : List Char} (hone : hits p cs = 1) (h : cs = x ++ (p ++ y))
    (h' : cs = x' ++ (p ++ y')) : x' = x := by
  have hlength : x'.length = x.length := by
    rcases Nat.lt_trichotomy x'.length x.length with hlt | heq | hlt
    · have := two_le_hits hp h' h hlt
      omega
    · exact heq
    · have := two_le_hits hp h h' hlt
      omega
  exact (List.append_inj (h'.symm.trans h) hlength).1

theorem countFrom_of_hits_eq_zero (k : Nat) (h : hits p cs = 0) : countFrom p k cs = 0 := by
  induction cs generalizing k with
  | nil => rw [countFrom]
  | cons c cs ih =>
    rw [hits, Nat.add_eq_zero_iff] at h
    cases k with
    | succ k => exact ih k h.2
    | zero =>
      have hhere : ¬startsWith p (c :: cs) = true := fun hs => by simp [hs] at h
      rw [countFrom, if_neg hhere]
      exact ih 0 h.2

theorem count_of_hits_eq_one (h : hits p cs = 1) : count p cs = 1 := by
  rw [count]
  induction cs with
  | nil => simp [hits] at h
  | cons c cs ih =>
    rw [hits] at h
    rw [countFrom]
    split
    next hhere =>
      rw [if_pos hhere] at h
      rw [countFrom_of_hits_eq_zero _ (by omega)]
    next hhere =>
      rw [if_neg hhere] at h
      exact ih (by omega)

theorem indexOf?_of_hits_eq_one (hp : p ≠ []) (hone : hits p cs = 1) (h : cs = x ++ (p ++ y)) :
    indexOf? p cs = some x.length := by
  rw [h, ← List.append_assoc]
  refine indexOf?_of_first fun x₁ x₂ hx hne => ?_
  by_contra hstart
  obtain ⟨r, hr⟩ := startsWith_iff.mp (Bool.not_eq_false _ ▸ hstart)
  have h' : cs = x₁ ++ (p ++ r) := by
    rw [← hr, h, hx]
    simp only [List.append_assoc]
  have hsame := eq_of_hits_eq_one hp hone h h'
  rw [hsame] at hx
  exact hne (List.append_right_eq_self.mp hx.symm)

/-! ## Cuts -/

/-- No place of `p` that starts in `a` goes on behind it, whatever stands there. -/
def NotAcross (p a : List Char) : Prop := ∀ z w, p = z ++ w → z ≠ [] → w ≠ [] → ¬z <:+ a

theorem notAcross_nil (p : List Char) : NotAcross p [] := by
  intro z w _ hz _ hsuffix
  exact hz (List.suffix_nil.mp hsuffix)

/-- What `a` ends in stands in `p` at the end only. -/
theorem notAcross_of_getLast {k : Char} (hp : k ∉ p.dropLast) (ha : a.getLast? = some k) : NotAcross p a := by
  rintro z w rfl hz hw ⟨t, rfl⟩
  rw [List.getLast?_append_of_ne_nil _ hz] at ha
  refine hp ?_
  rw [List.dropLast_append_of_ne_nil hw]
  exact List.mem_append_left _ (List.mem_of_getLast? ha)

/-- The same, where nothing that `p` starts with follows in `a`. -/
theorem notAcross_of_head {k : Char} {g : List Char} (hp : k ∉ p.dropLast) (hg : ∀ c ∈ g, p.head? ≠ some c)
    (a : List Char) : NotAcross p (a ++ k :: g) := by
  rintro z w rfl hz hw ⟨t, ht⟩
  rw [List.dropLast_append_of_ne_nil hw, List.mem_append, not_or] at hp
  obtain ⟨c, z, rfl⟩ := List.exists_cons_of_ne_nil hz
  rcases List.append_eq_append_iff.mp ht with ⟨b, -, hb⟩ | ⟨b, -, hb⟩
  · exact hp.1 (by rw [hb]; simp)
  · cases b with
    | nil =>
      obtain ⟨rfl, -⟩ := List.cons.inj hb
      exact hp.1 (by simp)
    | cons d b =>
      obtain ⟨-, rfl⟩ := List.cons.inj hb
      exact hg c (by simp) rfl

theorem hits_append_of (h : ∀ z w, p = z ++ w → z ≠ [] → w ≠ [] → z <:+ a → ¬w <+: b) :
    hits p (a ++ b) = hits p a + hits p b := by
  induction a with
  | nil => simp [hits]
  | cons c a ih =>
    have hrest := ih fun z w e hz hw hsuffix => h z w e hz hw (hsuffix.trans (List.suffix_cons c a))
    have hhere : startsWith p (c :: (a ++ b)) = startsWith p (c :: a) := by
      rw [Bool.eq_iff_iff, startsWith_iff_prefix, startsWith_iff_prefix, ← List.cons_append]
      constructor
      · rintro ⟨r, hr⟩
        rcases List.append_eq_append_iff.mp hr with ⟨z, hz, -⟩ | ⟨w, hw, hb⟩
        · exact ⟨z, hz.symm⟩
        · by_cases hw_nil : w = []
          · exact ⟨[], by rw [hw, hw_nil]; simp⟩
          · exact absurd ⟨r, hb.symm⟩ (h _ w hw (by simp) hw_nil (List.suffix_refl _))
      · intro hprefix
        exact hprefix.trans (List.prefix_append _ _)
    rw [List.cons_append, hits, hits, hhere, hrest, Nat.add_assoc]

theorem hits_append (h : NotAcross p a) (b : List Char) : hits p (a ++ b) = hits p a + hits p b :=
  hits_append_of fun z w e hz hw hsuffix => absurd hsuffix (h z w e hz hw)

/-- A text of which no beginning is also its end stands once where it was put into a text that does not hold it. -/
theorem hits_insert (hp : p ≠ []) (hself : NotAcross p p) (hnone : occursIn p (x ++ y) = false) :
    hits p (x ++ (p ++ y)) = 1 := by
  have hcut : ∀ z w, p = z ++ w → z ≠ [] → w ≠ [] → z <:+ x → ¬w <+: p ++ y := by
    intro z w hsplit hz hw _ hprefix
    have hlength := congrArg List.length hsplit
    have hpos := List.length_pos_iff.mpr hz
    rw [List.length_append] at hlength
    obtain ⟨t, ht⟩ : w <+: p := List.prefix_of_prefix_length_le hprefix (List.prefix_append p y) (by omega)
    refine hself w t ht.symm hw ?_ ⟨z, hsplit.symm⟩
    rintro rfl
    rw [List.append_nil] at ht
    rw [ht] at hlength
    omega
  obtain ⟨hx, hy⟩ := hits_eq_zero_of_append hp hnone
  rw [hits_append_of hcut, hits_append hself, hx, hy, hits_self hp]

theorem notAcross_append (ha : NotAcross p a) (hb : NotAcross p b) : NotAcross p (a ++ b) := by
  rintro z w rfl hz hw ⟨t, ht⟩
  rcases List.append_eq_append_iff.mp ht with ⟨y, rfl, rfl⟩ | ⟨y, -, rfl⟩
  · by_cases hy : y = []
    · subst hy
      exact hb _ w rfl hz hw (List.suffix_refl _)
    · exact ha y (b ++ w) (by rw [List.append_assoc]) hy (by simp [hw]) (List.suffix_append t y)
  · exact hb z w rfl hz hw (List.suffix_append y z)

section Blocks

variable {ι : Type} {block : ι → List Char} {is : List ι}

theorem notAcross_flatMap (hcut : ∀ i ∈ is, NotAcross p (block i)) : NotAcross p (is.flatMap block) := by
  induction is with
  | nil => exact notAcross_nil p
  | cons i is ih =>
    rw [List.forall_mem_cons] at hcut
    exact notAcross_append hcut.1 (ih hcut.2)

/-- A text that stands in none of the blocks. -/
theorem hits_flatMap_eq_zero (hcut : ∀ i ∈ is, NotAcross p (block i)) (hnone : ∀ i ∈ is, hits p (block i) = 0) :
    hits p (is.flatMap block) = 0 := by
  induction is with
  | nil => rfl
  | cons i is ih =>
    rw [List.forall_mem_cons] at hcut hnone
    rw [List.flatMap_cons, hits_append hcut.1, hnone.1, ih hcut.2 hnone.2]

/-- A text that stands once in the block of one index, and in no block of another one. -/
theorem hits_flatMap_eq_count [DecidableEq ι] {k : ι} (hcut : ∀ i ∈ is, NotAcross p (block i))
    (hone : ∀ i ∈ is, hits p (block i) = if i = k then 1 else 0) : hits p (is.flatMap block) = is.count k := by
  induction is with
  | nil => rfl
  | cons i is ih =>
    rw [List.forall_mem_cons] at hcut hone
    rw [List.flatMap_cons, hits_append hcut.1, hone.1, ih hcut.2 hone.2, List.count_cons]
    simp only [beq_iff_eq]
    omega

/-- Between two texts that hold nothing of `p` it stands as often as its block. -/
theorem hits_between_eq_count [DecidableEq ι] {k : ι} (hp : p ≠ []) (hbase : occursIn p (a ++ b) = false)
    (ha : NotAcross p a) (hcut : ∀ i ∈ is, NotAcross p (block i))
    (hone : ∀ i ∈ is, hits p (block i) = if i = k then 1 else 0) :
    hits p (a ++ (is.flatMap block ++ b)) = is.count k := by
  obtain ⟨hpre, hpost⟩ := hits_eq_zero_of_append hp hbase
  rw [hits_append ha, hits_append (notAcross_flatMap hcut), hits_flatMap_eq_count hcut hone, hpre, hpost,
    Nat.zero_add, Nat.add_zero]

theorem hits_between_eq_zero (hp : p ≠ []) (hbase : occursIn p (a ++ b) = false) (ha : NotAcross p a)
    (hcut : ∀ i ∈ is, NotAcross p (block i)) (hnone : ∀ i ∈ is, hits p (block i) = 0) :
    hits p (a ++ (is.flatMap block ++ b)) = 0 := by
  obtain ⟨hpre, hpost⟩ := hits_eq_zero_of_append hp hbase
  rw [hits_append ha, hits_append (notAcross_flatMap hcut), hits_flatMap_eq_zero hcut hnone, hpre, hpost]

end Blocks

/-! ## Texts of one shape -/

theorem append_cons_inj {c c' : Char} {u v s t : List Char} (h : u ++ c :: s = v ++ c' :: t) (hc : c ∉ v)
    (hc' : c' ∉ u) : u = v ∧ c = c' ∧ s = t := by
  rcases List.append_eq_append_iff.mp h with ⟨z, rfl, hz⟩ | ⟨z, rfl, hz⟩
  · cases z with
    | nil =>
      obtain ⟨hcc, hst⟩ := List.cons.inj hz
      exact ⟨by simp, hcc, hst⟩
    | cons d z =>
      obtain ⟨rfl, -⟩ := List.cons.inj hz
      simp at hc
  · cases z with
    | nil =>
      obtain ⟨hcc, hst⟩ := List.cons.inj hz
      exact ⟨by simp, hcc.symm, hst.symm⟩
    | cons d z =>
      obtain ⟨rfl, -⟩ := List.cons.inj hz
      simp at hc'

/-- The same, where the texts are compared from behind. -/
theorem append_cons_inj_right {c : Char} {u v s t : List Char} (h : u ++ c :: s = v ++ c :: t) (hs : c ∉ s)
    (ht : c ∉ t) : u = v ∧ s = t := by
  have hreverse := congrArg List.reverse h
  simp only [List.reverse_append, List.reverse_cons, List.append_assoc, List.singleton_append] at hreverse
  obtain ⟨hst, -, huv⟩ := append_cons_inj hreverse (by simpa using ht) (by simpa using hs)
  exact ⟨List.reverse_injective huv, List.reverse_injective hst⟩

/-- A character that stands not in the first part of a text stands in the second one. -/
theorem exists_of_append_eq {c : Char} {u s t v : List Char} (h : u ++ s = t ++ c :: v) (hu : c ∉ u) :
    ∃ t', t = u ++ t' ∧ s = t' ++ c :: v := by
  rcases List.append_eq_append_iff.mp h with ⟨z, rfl, hz⟩ | ⟨z, rfl, hz⟩
  · exact ⟨z, rfl, hz⟩
  · cases z with
    | nil => exact ⟨[], by simp, hz.symm⟩
    | cons d z =>
      obtain ⟨rfl, -⟩ := List.cons.inj hz
      simp at hu

/-- The same frame around two names: the text with one of the names stands in that with the other only if the names are
the same.  The character `k` shows where the frame starts, and `c` where the name ends. -/
theorem hits_frame {k c : Char} {u v w m n : List Char} (hk : k ∉ u) (hk' : k ∉ v ++ (m ++ c :: w)) (hm : c ∉ m)
    (hn : c ∉ n) :
    hits (u ++ k :: (v ++ (n ++ c :: w))) (u ++ k :: (v ++ (m ++ c :: w))) = if m = n then 1 else 0 := by
  split
  next hmn =>
    subst hmn
    exact hits_self (by simp)
  next hmn =>
    rw [hits_eq_zero_iff (by simp)]
    rintro ⟨x, y, hxy⟩
    have hsplit : u ++ k :: (v ++ (m ++ c :: w)) = (x ++ u) ++ k :: (v ++ (n ++ c :: (w ++ y))) := by
      rw [← hxy]
      simp only [List.append_assoc, List.cons_append]
    obtain ⟨-, -, hrest⟩ := (List.append_cons_inj_of_notMem hk hk').mp hsplit
    exact hmn (append_cons_inj (List.append_cancel_left hrest) hn hm).1

end Text
end ModuleLink
