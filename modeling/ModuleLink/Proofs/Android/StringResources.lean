import Mathlib
import ModuleLink.Android.Naming
import ModuleLink.Android.StringResources
import ModuleLink.Proofs.Answers
import ModuleLink.Proofs.Entries
import ModuleLink.Proofs.Text.Search

/-!
Params that are written as string resources are read back: the same names in the same order, with the same values.
-/

namespace ModuleLink
namespace Android

/-! ## Markup -/

theorem unescapeMarkup_cons {c : Char} (h : c ≠ '&') (cs : List Char) :
    unescapeMarkup (c :: cs) = c :: unescapeMarkup cs := by
  rw [unescapeMarkup] <;> simp [h]

theorem unescapeMarkup_escapeMarkup (cs : List Char) : unescapeMarkup (escapeMarkup cs) = cs := by
  induction cs with
  | nil => rfl
  | cons c cs ih =>
    rw [escapeMarkup, List.flatMap_cons, ← escapeMarkup, escapeMarkupChar]
    by_cases hamp : c = '&'
    · subst hamp
      simp [unescapeMarkup, ih]
    · by_cases hlt : c = '<'
      · subst hlt
        simp [unescapeMarkup, ih]
      · by_cases hgt : c = '>'
        · subst hgt
          simp [unescapeMarkup, ih]
        · rw [if_neg hamp, if_neg hlt, if_neg hgt, List.singleton_append, unescapeMarkup_cons hamp, ih]

theorem notMem_escapeMarkup (cs : List Char) : '<' ∉ escapeMarkup cs := by
  intro h
  obtain ⟨c, -, hc⟩ := List.mem_flatMap.mp h
  rw [escapeMarkupChar] at hc
  split at hc
  · exact absurd hc (by decide)
  · split at hc
    · exact absurd hc (by decide)
    · split at hc
      · exact absurd hc (by decide)
      · rename_i hlt _
        exact hlt (List.mem_singleton.mp hc).symm

/-! ## Stems -/

/-- A character that no word holds. -/
structure IsSeparator (d : Char) : Prop where
  lower : isLower d = false
  upper : isUpper d = false
  decimal : Text.isDecimal d = false

section Stems

variable {d : Char} {cs : List Char}

theorem notMem_map {f : Char → Char} (hf : ∀ c, c ≠ d → f c ≠ d) (h : d ∉ cs) : d ∉ cs.map f := by
  intro hmem
  obtain ⟨c, hc, he⟩ := List.mem_map.mp hmem
  exact hf c (fun e => h (e ▸ hc)) he

theorem toLower_ne (hd : IsSeparator d) {c : Char} (h : c ≠ d) : c.toLower ≠ d := by
  rw [Char.toLower]
  split
  next hc =>
    rintro rfl
    have hlow : 65 ≤ c.val.toNat := UInt32.le_iff_toNat_le.mp hc.1
    have hhigh : c.val.toNat ≤ 90 := UInt32.le_iff_toNat_le.mp hc.2
    have hval : (c.val + 32).toNat = c.val.toNat + 32 := by
      have hshift : (32 : UInt32).toNat = 32 := rfl
      rw [UInt32.toNat_add, hshift]
      omega
    have hlower := hd.lower
    simp only [isLower, Bool.and_eq_false_iff, decide_eq_false_iff_not] at hlower
    rcases hlower with hlower | hlower
    · refine hlower (UInt32.le_iff_toNat_le.mpr ?_)
      show 97 ≤ (c.val + 32).toNat
      omega
    · refine hlower (UInt32.le_iff_toNat_le.mpr ?_)
      show (c.val + 32).toNat ≤ 122
      omega
  · exact h

theorem toUpper_ne (hd : IsSeparator d) {c : Char} (h : c ≠ d) : c.toUpper ≠ d := by
  rw [Char.toUpper]
  split
  next hc =>
    rintro rfl
    have hlow : 97 ≤ c.val.toNat := UInt32.le_iff_toNat_le.mp hc.1
    have hhigh : c.val.toNat ≤ 122 := UInt32.le_iff_toNat_le.mp hc.2
    have hval : (c.val + ('A'.val - 'a'.val)).toNat = c.val.toNat - 32 := by
      have hshift : ('A'.val - 'a'.val).toNat = 4294967264 := rfl
      rw [UInt32.toNat_add, hshift]
      omega
    have hupper := hd.upper
    simp only [isUpper, Bool.and_eq_false_iff, decide_eq_false_iff_not] at hupper
    rcases hupper with hupper | hupper
    · refine hupper (UInt32.le_iff_toNat_le.mpr ?_)
      show 65 ≤ (c.val + ('A'.val - 'a'.val)).toNat
      omega
    · refine hupper (UInt32.le_iff_toNat_le.mpr ?_)
      show (c.val + ('A'.val - 'a'.val)).toNat ≤ 90
      omega
  · exact h

theorem notMem_takeWhile {p : Char → Bool} (hp : p d = false) (cs : List Char) : d ∉ cs.takeWhile p := by
  intro h
  have := List.all_eq_true.mp List.all_takeWhile d h
  rw [hp] at this
  contradiction

theorem notMem_wordAt (hd : IsSeparator d) (cs : List Char) : d ∉ wordAt cs := by
  have hlower := notMem_takeWhile hd.lower
  have hupper := notMem_takeWhile hd.upper
  have hcapitals (cs : List Char) : d ∉ capitals cs := by
    rw [capitals]
    split
    · split
      · exact fun h => hupper cs ((List.dropLast_sublist _).mem h)
      · exact hupper cs
    · exact hupper cs
  cases cs with
  | nil => simp [wordAt]
  | cons c rest =>
    simp only [wordAt]
    split
    · exact hlower _
    · split
      next hc =>
        split
        · exact hcapitals _
        · rw [List.mem_cons, not_or]
          refine ⟨?_, hlower rest⟩
          rintro rfl
          rw [hd.upper] at hc
          contradiction
      · exact notMem_takeWhile hd.decimal _

theorem notMem_words (hd : IsSeparator d) (cs : List Char) : ∀ w ∈ words cs, d ∉ w := by
  fun_induction words cs with
  | case1 => simp
  | case2 c rest _ ih => exact ih
  | case3 c rest w ws hw ih =>
    intro v hv
    rcases List.mem_cons.mp hv with rfl | hv
    · rw [← hw]
      exact notMem_wordAt hd _
    · exact ih v hv

/-- A stem is put together from words only. -/
theorem notMem_camelCase (hd : IsSeparator d) (name : String) : d ∉ (camelCase name).toList := by
  have hwords : ∀ w ∈ (words name.toList).map fun w => w.map Char.toLower, d ∉ w := by
    intro w hw
    obtain ⟨v, hv, rfl⟩ := List.mem_map.mp hw
    exact notMem_map (fun c => toLower_ne hd) (notMem_words hd _ v hv)
  rw [camelCase, String.toList_ofList, camelChars]
  split
  · simp
  next w ws hws =>
    rw [hws] at hwords
    rw [List.mem_append, not_or]
    refine ⟨hwords w (by simp), fun h => ?_⟩
    obtain ⟨v, hv, hmem⟩ := List.mem_flatMap.mp h
    have hv' := hwords v (by simp [hv])
    cases v with
    | nil => simp [capitalise] at hmem
    | cons c cs =>
      rw [List.mem_cons, not_or] at hv'
      rcases List.mem_cons.mp hmem with e | hmem
      · exact toUpper_ne hd (Ne.symm hv'.1) e.symm
      · exact hv'.2 hmem

theorem newline_notMem_camelCase (name : String) : '\n' ∉ (camelCase name).toList :=
  notMem_camelCase ⟨by decide, by decide, by decide⟩ name

theorem underscore_notMem_camelCase (name : String) : '_' ∉ (camelCase name).toList :=
  notMem_camelCase ⟨by decide, by decide, by decide⟩ name

end Stems

/-! ## Entries -/

section Entries

variable {stem name value : String} {params : Answers} {u v content : List Char}

/-- A name that an entry is found by. -/
def IsParamName (name : String) : Prop := name ≠ "" ∧ ∀ c ∈ name.toList, Text.isWord c = true

/-- The names of params as they can be written and read back: each there once, and made of word characters. -/
structure WellNamed (params : Answers) : Prop where
  names : ∀ p ∈ params, IsParamName p.1
  distinct : (params.map (·.1)).Nodup

-- The equation that Lean makes for `entryStart` takes it far too long, for the sake of the text in it.
theorem entryStart_eq (stem : String) :
    entryStart stem = "<string moduleConfig=\"true\" name=\"".toList ++ stem.toList ++ ['_'] := rfl

theorem head?_entryStart (stem : String) : (entryStart stem).head? = some '<' := by
  have h : ("<string moduleConfig=\"true\" name=\"".toList).head? = some '<' := by decide
  rw [entryStart_eq, List.append_assoc, List.head?_append, h]
  rfl

theorem newline_notMem_entryStart (h : '\n' ∉ stem.toList) : '\n' ∉ entryStart stem := by
  have htag : '\n' ∉ "<string moduleConfig=\"true\" name=\"".toList := by decide
  have hend : '\n' ∉ ['_'] := by decide
  rw [entryStart_eq, List.mem_append, List.mem_append, not_or, not_or]
  exact ⟨⟨htag, h⟩, hend⟩

/-- No entry starts with another character than its first. -/
theorem startsWith_entryStart_cons {c : Char} (hc : c ≠ '<') (cs : List Char) :
    Text.startsWith (entryStart stem) (c :: cs) = false := by
  obtain ⟨t, ht⟩ := List.head?_eq_some_iff.mp (head?_entryStart stem)
  rw [ht, Text.startsWith, Text.after?, if_neg (Ne.symm hc)]
  rfl

theorem indexOf?_entryEnd {cs : List Char} (h : '<' ∉ cs) (rest : List Char) :
    Text.indexOf? entryEnd (cs ++ entryEnd ++ rest) = some cs.length := by
  refine Text.indexOf?_of_first fun a₁ a₂ ha hne => ?_
  have hend : entryEnd = '<' :: "/string>".toList := by decide
  cases a₂ with
  | nil => exact absurd rfl hne
  | cons c a₂ =>
    have hc : c ≠ '<' := fun e => h (by rw [ha, e]; simp)
    rw [hend, List.cons_append, List.cons_append, Text.startsWith, Text.after?, if_neg (Ne.symm hc)]
    rfl

/-- An entry is read as what it was written from, whatever follows it. -/
theorem entryAt?_entry (stem : String) (hname : IsParamName name) (value : String) (rest : List Char) :
    entryAt? stem (entry stem name value ++ rest) = some (name, value, (entry stem name value).length) := by
  have hmiddle : entryMiddle = ['"', '>'] := by decide
  have hquote : Text.isWord '"' = false := by decide
  have hempty : name.toList.isEmpty = false := by simpa using hname.1
  have hbody (rest : List Char) :
      entryBody? (escapeMarkup value.toList ++ (entryEnd ++ rest)) = some (escapeMarkup value.toList) := by
    rw [entryBody?, ← List.append_assoc, indexOf?_entryEnd (notMem_escapeMarkup _), Option.map_some,
      List.append_assoc, List.take_left]
  have htake (tail : List Char) : (name.toList ++ (entryMiddle ++ tail)).takeWhile Text.isWord = name.toList := by
    rw [List.takeWhile_append_of_pos hname.2, hmiddle]
    simp [hquote]
  have hdrop (tail : List Char) :
      (name.toList ++ (entryMiddle ++ tail)).dropWhile Text.isWord = entryMiddle ++ tail := by
    rw [List.dropWhile_append_of_pos hname.2, hmiddle]
    simp [hquote]
  rw [entryAt?, entry]
  simp only [List.append_assoc, Text.after?_append, Option.bind_eq_bind, Option.bind_some, htake, hdrop, hempty,
    Bool.false_eq_true, if_false, hbody, unescapeMarkup_escapeMarkup, String.ofList_toList]
  simp only [pure, List.length_append, Option.some.injEq, Prod.mk.injEq, true_and]
  omega

theorem startsWith_of_entryAt? {e : String × String × Nat} (h : entryAt? stem content = some e) :
    Text.startsWith (entryStart stem) content = true := by
  obtain ⟨rest, hrest, -⟩ := Option.bind_eq_some_iff.mp h
  rw [Text.startsWith, hrest]
  rfl

theorem entriesFrom_busy (u v : List Char) : entriesFrom stem u.length (u ++ v) = entriesFrom stem 0 v := by
  induction u with
  | nil => rfl
  | cons c u ih => rw [List.length_cons, List.cons_append, entriesFrom, ih]

theorem entriesFrom_entry (hname : IsParamName name) (value : String) (rest : List Char) :
    entriesFrom stem 0 (entry stem name value ++ rest) = (name, value) :: entriesFrom stem 0 rest := by
  have hentry := entryAt?_entry stem hname value rest
  cases he : entry stem name value with
  | nil =>
    have hhead := head?_entryStart stem
    simp only [entry, List.append_eq_nil_iff] at he
    rw [he.1.1.1.1] at hhead
    contradiction
  | cons c cs =>
    rw [he, List.cons_append] at hentry
    rw [List.cons_append, entriesFrom, hentry]
    simp only [List.length_cons, Nat.add_sub_cancel]
    rw [entriesFrom_busy]

/-- A text in which no entry starts is passed over. -/
theorem entriesFrom_skip (h : ∀ u₁ u₂, u = u₁ ++ u₂ → u₂ ≠ [] →
    Text.startsWith (entryStart stem) (u₂ ++ v) = false) :
    entriesFrom stem 0 (u ++ v) = entriesFrom stem 0 v := by
  induction u with
  | nil => rfl
  | cons c u ih =>
    have hnone : entryAt? stem (c :: (u ++ v)) = none := by
      by_contra hsome
      obtain ⟨e, he⟩ := Option.ne_none_iff_exists'.mp hsome
      have hc := h [] (c :: u) rfl (by simp)
      rw [List.cons_append, startsWith_of_entryAt? he] at hc
      contradiction
    rw [List.cons_append, entriesFrom, hnone]
    exact ih fun u₁ u₂ e hne => h (c :: u₁) u₂ (by rw [e]; rfl) hne

theorem entriesFrom_cons {c : Char} (hc : c ≠ '<') (cs : List Char) :
    entriesFrom stem 0 (c :: cs) = entriesFrom stem 0 cs := by
  refine entriesFrom_skip (u := [c]) fun u₁ u₂ e hne => ?_
  obtain rfl : u₂ = [c] := by
    rcases List.append_eq_singleton_iff.mp e.symm with ⟨-, h⟩ | ⟨-, h⟩
    · exact h
    · exact absurd h hne
  exact startsWith_entryStart_cons hc cs

theorem entriesFrom_entryLines (hnames : ∀ p ∈ params, IsParamName p.1) (v : List Char) :
    entriesFrom stem 0 (entryLines stem params ++ v) = params ++ entriesFrom stem 0 v := by
  induction params with
  | nil => rfl
  | cons p params ih =>
    have hindent : "    ".toList = [' ', ' ', ' ', ' '] := by decide
    rw [entryLines, List.flatMap_cons, ← entryLines, hindent]
    simp only [List.append_assoc, List.cons_append, List.nil_append]
    iterate 4 rw [entriesFrom_cons (by decide)]
    rw [entriesFrom_entry (hnames p (by simp)), entriesFrom_cons (by decide),
      ih fun q hq => hnames q (by simp [hq])]

/-! ## Reading -/

theorem entriesFrom_of_no_entry (h : Text.occursIn (entryStart stem) content = false) :
    entriesFrom stem 0 content = [] := by
  rw [← List.append_nil content, entriesFrom_skip fun u₁ u₂ e hne => ?_]
  · rfl
  · by_contra hstart
    obtain ⟨r, hr⟩ := Text.startsWith_iff.mp (Bool.not_eq_false _ ▸ hstart)
    rw [List.append_nil] at hr
    rw [Text.occursIn_iff.mpr ⟨u₁, r, by rw [e, hr]; simp⟩] at h
    contradiction

theorem readParams_of_no_entry (h : Text.occursIn (entryStart stem) content = false) :
    readParams stem content = [] := by
  rw [readParams, entriesFrom_of_no_entry h]
  rfl

/-- Params that no entry is there for yet are read back from the lines written for them behind a line end. -/
theorem readParams_entryLines (hparams : WellNamed params) (hstem : '\n' ∉ stem.toList)
    (hfresh : Text.occursIn (entryStart stem) (u ++ ['\n'] ++ v) = false) :
    readParams stem (u ++ ['\n'] ++ entryLines stem params ++ v) = params := by
  have hnone : ∀ a b, u ++ ['\n'] ++ v ≠ a ++ entryStart stem ++ b := by
    intro a b h
    rw [Text.occursIn_iff.mpr ⟨a, b, h⟩] at hfresh
    contradiction
  have hbefore : ∀ tail, entriesFrom stem 0 (u ++ ['\n'] ++ tail) = entriesFrom stem 0 tail := by
    intro tail
    refine entriesFrom_skip fun u₁ u₂ e hne => ?_
    by_contra hstart
    obtain ⟨r, hr⟩ := Text.startsWith_iff.mp (Bool.not_eq_false _ ▸ hstart)
    rcases List.append_eq_append_iff.mp hr with ⟨z, hz, -⟩ | ⟨z, hz, -⟩
    · -- The start of an entry holds no line end, so it does not go on over the one before the lines.
      have hlast : u₂.getLast? = some '\n' := by
        rw [← List.getLast?_append_of_ne_nil u₁ hne, ← e, List.getLast?_append]
        rfl
      refine newline_notMem_entryStart hstem ?_
      rw [hz]
      exact List.mem_append_left z (List.mem_of_getLast? hlast)
    · exact hnone u₁ (z ++ v) (by rw [e, hz]; simp)
  have hbehind : entriesFrom stem 0 v = [] := by
    refine entriesFrom_of_no_entry ?_
    by_contra hocc
    obtain ⟨a, b, hab⟩ := Text.occursIn_iff.mp (Bool.not_eq_false _ ▸ hocc)
    exact hnone (u ++ ['\n'] ++ a) b (by rw [hab]; simp)
  rw [readParams, List.append_assoc, hbefore, entriesFrom_entryLines hparams.names, hbehind, List.append_nil]
  exact Answers.foldl_record [] hparams.distinct

end Entries

end Android
end ModuleLink
