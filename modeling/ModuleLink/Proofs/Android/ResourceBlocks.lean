import ModuleLink.Proofs.Android.Selection

/-!
The blocks of string resources.  Each entry of a library starts with a tag that names its stem, and no other text of the
blocks looks like the start of an entry, whatever the values are, for these are written without angle brackets.
-/

namespace ModuleLink
namespace Android

open Patch Text

/-! ## Entries in lines -/

section Lines

variable {stem : String} {params : Answers} {a b : List Char}

def indent : List Char := "    ".toList

theorem entryLines_cons (stem : String) (p : String × String) (params : Answers) :
    entryLines stem (p :: params) = indent ++ (entry stem p.1 p.2 ++ '\n' :: entryLines stem params) := by
  rw [entryLines, List.flatMap_cons, ← entryLines, ← indent]
  simp only [List.append_assoc, List.cons_append, List.nil_append]

/-- The tag of an entry behind its angle bracket. -/
def tagRest : List Char := "string moduleConfig=\"true\" name=\"".toList

theorem entryStart_eq_cons (stem : String) : entryStart stem = '<' :: (tagRest ++ (stem.toList ++ ['_'])) := by
  have htag : "<string moduleConfig=\"true\" name=\"".toList = '<' :: tagRest := by decide +kernel
  rw [entryStart_eq, htag]
  simp only [List.append_assoc, List.cons_append]

theorem notMem_tagRest : '<' ∉ tagRest := by decide

/-- An entry holds two angle brackets, and the second one opens its end. -/
theorem exists_entry_eq (hstem : '<' ∉ stem.toList) {name : String} (hname : IsParamName name) (value : String) :
    ∃ body, '<' ∉ body ∧ entry stem name value = '<' :: (body ++ '<' :: "/string>".toList) := by
  have hend : entryEnd = '<' :: "/string>".toList := by decide
  have hmiddle : '<' ∉ entryMiddle := by decide
  have hword : '<' ∉ name.toList := fun h => absurd (hname.2 _ h) (by decide)
  refine ⟨tagRest ++ (stem.toList ++ '_' :: (name.toList ++ (entryMiddle ++ escapeMarkup value.toList))), ?_, ?_⟩
  · simp only [List.mem_append, List.mem_cons, not_or]
    exact ⟨notMem_tagRest, hstem, by decide, hword, hmiddle, notMem_escapeMarkup _⟩
  · rw [entry, entryStart_eq_cons, hend]
    simp only [List.append_assoc, List.cons_append, List.nil_append]

/-- An angle bracket in the lines opens an entry, or the end of one. -/
theorem entryLines_cut (hstem : '<' ∉ stem.toList) (hnames : ∀ p ∈ params, IsParamName p.1)
    (h : entryLines stem params = a ++ '<' :: b) :
    (∃ ps p qs, params = ps ++ p :: qs ∧ a = entryLines stem ps ++ indent ∧
      '<' :: b = entry stem p.1 p.2 ++ '\n' :: entryLines stem qs) ∨ ∃ b', b = '/' :: b' := by
  induction params generalizing a with
  | nil => simp [entryLines] at h
  | cons p params ih =>
    obtain ⟨body, hbody, hentry⟩ := exists_entry_eq hstem (hnames p (by simp)) p.2
    have hindent : '<' ∉ indent := by decide
    have hclose : '<' ∉ "/string>".toList ++ ['\n'] := by decide
    rw [entryLines_cons] at h
    obtain ⟨a₁, rfl, h₁⟩ := exists_of_append_eq h hindent
    rw [hentry, List.cons_append] at h₁
    cases a₁ with
    | nil =>
      refine .inl ⟨[], p, params, rfl, by simp [entryLines], ?_⟩
      rw [hentry, List.cons_append, ← (List.cons.inj h₁).2]
    | cons c a₁ =>
      obtain ⟨rfl, h₂⟩ := List.cons.inj h₁
      rw [List.append_assoc, List.cons_append] at h₂
      obtain ⟨a₂, rfl, h₃⟩ := exists_of_append_eq h₂ hbody
      cases a₂ with
      | nil =>
        refine .inr ⟨_, (List.cons.inj h₃).2.symm⟩
      | cons d a₂ =>
        obtain ⟨rfl, h₄⟩ := List.cons.inj h₃
        rw [← List.singleton_append, ← List.append_assoc] at h₄
        obtain ⟨a₃, rfl, h₅⟩ := exists_of_append_eq h₄ hclose
        rcases ih (fun q hq => hnames q (by simp [hq])) h₅ with ⟨ps, q, qs, rfl, rfl, hq⟩ | hb
        · refine .inl ⟨p :: ps, q, qs, rfl, ?_, hq⟩
          rw [entryLines_cons, hentry]
          simp only [List.append_assoc, List.cons_append, List.nil_append]
        · exact .inr hb

theorem getLast_entryLines (h : entryLines stem params ≠ []) : (entryLines stem params).getLast? = some '\n' := by
  induction params with
  | nil => exact absurd rfl h
  | cons p params ih =>
    rw [entryLines_cons]
    by_cases hrest : entryLines stem params = []
    · rw [hrest, ← List.append_assoc, List.getLast?_concat]
    · rw [List.getLast?_append, List.getLast?_append, List.getLast?_cons, ih hrest]
      rfl

end Lines

namespace Selection

variable {ι : Type} {s : Selection ι} {i k : ι}

theorem block_strings : s.block .strings i = entryLines (s.stem i) (s.get i).params := String.toList_ofList

theorem newline_notMem_stem : '\n' ∉ (s.stem i).toList := newline_notMem_camelCase _

theorem bracket_notMem_stem : '<' ∉ (s.stem i).toList := notMem_camelCase ⟨by decide, by decide, by decide⟩ _

theorem eq_of_entryStart_append {x y : List Char} (h : entryStart (s.stem i) ++ x = entryStart (s.stem k) ++ y) :
    i = k ∧ x = y := by
  rw [entryStart_eq, entryStart_eq] at h
  simp only [List.append_assoc, List.singleton_append] at h
  obtain ⟨hstem, -, hrest⟩ := append_cons_inj (List.append_cancel_left h) (underscore_notMem_camelCase _)
    (underscore_notMem_camelCase _)
  exact ⟨s.stem_injective (String.toList_inj.mp hstem), hrest⟩

/-- The start of an entry of a library stands in the blocks of this library only, in front of its entries. -/
theorem eq_of_entryStart_mem {x y : List Char} (h : s.block .strings i = x ++ (entryStart (s.stem k) ++ y)) :
    i = k ∧ ∃ ps p qs, (s.get i).params = ps ++ p :: qs ∧ x = entryLines (s.stem i) ps ++ indent ∧
      ∃ z, y = p.1.toList ++ '"' :: z := by
  have hmiddle : entryMiddle = ['"', '>'] := by decide
  have htag : tagRest = 's' :: "tring moduleConfig=\"true\" name=\"".toList := by decide +kernel
  have hstart := entryStart_eq_cons (s.stem k)
  rw [block_strings, hstart, List.cons_append] at h
  rcases entryLines_cut bracket_notMem_stem (s.plain i).params.names h with ⟨ps, p, qs, hparams, hx, hentry⟩ | ⟨b, hb⟩
  · rw [← List.cons_append, ← hstart, entry, hmiddle] at hentry
    simp only [List.append_assoc] at hentry
    obtain ⟨hik, hy⟩ := eq_of_entryStart_append hentry
    exact ⟨hik.symm, ps, p, qs, hparams, hx, _, hy⟩
  · rw [htag, List.cons_append] at hb
    exact absurd (List.cons.inj hb).1 (by decide)

theorem hits_entryStart (hik : i ≠ k) : hits (entryStart (s.stem k)) (s.block .strings i) = 0 := by
  have hne : entryStart (s.stem k) ≠ [] := by
    rw [entryStart_eq_cons]
    simp
  rw [hits_eq_zero_iff hne]
  rintro ⟨x, y, hxy⟩
  rw [List.append_assoc] at hxy
  exact hik (eq_of_entryStart_mem hxy.symm).1

/-! ## The first entry -/

/-- What the lines of a library start with: the first entry up to the end of its name. -/
def mark (s : Selection ι) (k : ι) (name : String) : List Char :=
  indent ++ (entryStart (s.stem k) ++ (name.toList ++ ['"']))

theorem newline_notMem_mark {name : String} (hname : IsParamName name) : '\n' ∉ s.mark k name := by
  have hindent : '\n' ∉ indent := by decide
  have hword : '\n' ∉ name.toList := fun h => absurd (hname.2 _ h) (by decide)
  rw [mark]
  simp only [List.mem_append, List.mem_singleton, not_or]
  exact ⟨hindent, newline_notMem_entryStart newline_notMem_stem, hword, by decide⟩

theorem mark_prefix {p : String × String} {ps : Answers} (h : (s.get k).params = p :: ps) :
    s.mark k p.1 <+: s.block .strings k := by
  have hmiddle : entryMiddle = ['"', '>'] := by decide
  rw [block_strings, h, entryLines_cons, entry, mark, hmiddle]
  exact ⟨'>' :: (escapeMarkup p.2.toList ++ (entryEnd ++ '\n' :: entryLines (s.stem k) ps)), by simp⟩

theorem hits_mark [DecidableEq ι] {p : String × String} {ps : Answers} (h : (s.get k).params = p :: ps) :
    hits (s.mark k p.1) (s.block .strings i) = if i = k then 1 else 0 := by
  have hne : s.mark k p.1 ≠ [] := by simp [mark]
  by_cases hik : i = k
  · subst hik
    obtain ⟨r, hr⟩ := mark_prefix h
    rw [if_pos rfl]
    refine hits_eq_one (x := []) hne hr.symm fun x y hxy => ?_
    rw [mark] at hxy
    have hsplit : s.block .strings i = (x ++ indent) ++ (entryStart (s.stem i) ++ (p.1.toList ++ '"' :: y)) := by
      rw [hxy]
      simp
    -- The entry with this name is the first one, since no other one has it.
    obtain ⟨-, qs, q, rs, hparams, hx, z, hz⟩ := eq_of_entryStart_mem hsplit
    have hplain := (s.plain i).params
    have hquote (q : String × String) (hq : q ∈ (s.get i).params) : '"' ∉ q.1.toList := fun hmem =>
      absurd ((hplain.names q hq).2 _ hmem) (by decide)
    have hname : p.1 = q.1 := String.toList_inj.mp (append_cons_inj hz (hquote q (by simp [hparams]))
      (hquote p (by simp [h]))).1
    cases qs with
    | nil =>
      have hnil : entryLines (s.stem i) [] = [] := rfl
      rw [hnil, List.nil_append] at hx
      exact List.append_left_eq_self.mp hx
    | cons q' qs =>
      rw [hparams] at h
      have hdistinct := hplain.distinct
      rw [hparams, List.map_append, List.map_cons, List.nodup_append] at hdistinct
      obtain ⟨rfl, -⟩ := List.cons.inj h
      exact absurd hname (hdistinct.2.2 _ (by simp) _ (by simp))
  · rw [if_neg hik, hits_eq_zero_iff hne]
    rintro ⟨x, y, hxy⟩
    have hsplit : s.block .strings i = (x ++ indent) ++ (entryStart (s.stem k) ++ (p.1.toList ++ ['"'] ++ y)) := by
      rw [← hxy, mark]
      simp
    exact hik (eq_of_entryStart_mem hsplit).1

/-! ## The resource file -/

theorem getLast_block_strings (h : s.block .strings i ≠ []) : (s.block .strings i).getLast? = some '\n' := by
  rw [block_strings] at h ⊢
  exact getLast_entryLines h

/-- The tag of the resources does not start inside a block. -/
theorem rest?_resourcesTag_block {t₁ t₂ : List Char} (h : s.block .strings i = t₁ ++ t₂) (hne : t₂ ≠ []) (fresh : Bool)
    (w : List Char) : Anchor.resourcesTag.rest? fresh (t₂ ++ w) = none := by
  have htag : tagRest = 's' :: "tring moduleConfig=\"true\" name=\"".toList := by decide +kernel
  obtain ⟨c, t, rfl⟩ := List.exists_cons_of_ne_nil hne
  rw [List.cons_append]
  by_cases hc : c = '<'
  · subst hc
    rw [block_strings] at h
    rcases entryLines_cut bracket_notMem_stem (s.plain i).params.names h with ⟨ps, p, qs, -, -, hentry⟩ | ⟨b, rfl⟩
    · rw [entry, entryStart_eq_cons, htag] at hentry
      simp only [List.cons_append, List.cons.injEq, true_and] at hentry
      rw [hentry, List.cons_append]
      exact Anchor.rest?_resourcesTag_of_second (by decide)
    · exact Anchor.rest?_resourcesTag_of_second (by decide)
  · exact Anchor.rest?_resourcesTag_of_head hc

theorem getLast_resourcesTag {u m v : List Char} (h : Anchor.resourcesTag.OnlyPlace u m v) :
    (u ++ m).getLast? = some '\n' := by
  obtain ⟨a, g, rfl, -, -⟩ := h.piece
  rw [← List.append_assoc, List.getLast?_concat]

theorem notAcross_block_strings {p : List Char} (hp : '\n' ∉ p) : NotAcross p (s.block .strings i) := by
  by_cases hblock : s.block .strings i = []
  · rw [hblock]
    exact notAcross_nil p
  · exact notAcross_of_getLast (fun h => hp (List.mem_of_mem_dropLast h)) (getLast_block_strings hblock)

theorem stack_strings [DecidableEq ι] {u m v : List Char} (h : Anchor.resourcesTag.OnlyPlace u m v)
    (hbase : ∀ i, occursIn (entryStart (s.stem i)) (u ++ m ++ v) = false) :
    Stack .resourcesTag (s.block .strings) (u ++ m) v := by
  refine ⟨⟨u, m, rfl, h.insert_lines (getLast_resourcesTag h) (fun i => getLast_block_strings)
    fun i t₁ t₂ w e hne => rest?_resourcesTag_block e hne _ w⟩, fun k hne => ?_⟩
  cases hparams : (s.get k).params with
  | nil =>
    rw [block_strings, hparams] at hne
    exact absurd rfl hne
  | cons p ps =>
    have hname := (s.plain k).params.names p (by simp [hparams])
    have hmark : s.mark k p.1 ≠ [] := by simp [mark]
    have hline := newline_notMem_mark (s := s) (k := k) hname
    have hpre := notAcross_of_getLast (fun h => hline (List.mem_of_mem_dropLast h)) (getLast_resourcesTag h)
    have hfresh : occursIn (s.mark k p.1) (u ++ m ++ v) = false := by
      rw [Bool.eq_false_iff, Ne, occursIn_iff_infix]
      intro hpart
      have hstart : entryStart (s.stem k) <:+: s.mark k p.1 := ⟨indent, p.1.toList ++ ['"'], by simp [mark]⟩
      have := occursIn_iff_infix.mpr (hstart.trans hpart)
      rw [hbase k] at this
      contradiction
    exact ⟨_, hmark, mark_prefix hparams, fun is =>
      hits_between_eq_count hmark hfresh hpre (fun i _ => notAcross_block_strings hline) fun i _ => hits_mark hparams⟩

theorem getLast_append_blocks {a : List Char} (ha : a.getLast? = some '\n') (is : List ι) :
    (a ++ is.flatMap (s.block .strings)).getLast? = some '\n' := by
  induction is generalizing a with
  | nil => simpa using ha
  | cons i is ih =>
    rw [List.flatMap_cons, ← List.append_assoc]
    refine ih ?_
    by_cases hblock : s.block .strings i = []
    · rw [hblock, List.append_nil]
      exact ha
    · rw [List.getLast?_append_of_ne_nil _ hblock, getLast_block_strings hblock]

/-- No entry of a library starts in the blocks of the others. -/
theorem occursIn_entryStart {u m v : List Char} (h : Anchor.resourcesTag.OnlyPlace u m v)
    (hbase : occursIn (entryStart (s.stem k)) (u ++ m ++ v) = false) {is : List ι} (hk : k ∉ is) :
    occursIn (entryStart (s.stem k)) (u ++ m ++ (is.flatMap (s.block .strings) ++ v)) = false := by
  have hne : entryStart (s.stem k) ≠ [] := by
    rw [entryStart_eq_cons]
    simp
  have hline : '\n' ∉ entryStart (s.stem k) := newline_notMem_entryStart newline_notMem_stem
  have hpre := notAcross_of_getLast (fun h => hline (List.mem_of_mem_dropLast h)) (getLast_resourcesTag h)
  rw [Bool.eq_false_iff, Ne, occursIn_iff_infix, ← hits_eq_zero_iff hne]
  exact hits_between_eq_zero hne hbase hpre (fun i _ => notAcross_block_strings hline)
    fun i hi => hits_entryStart fun e => hk (e ▸ hi)

/-- The params of the libraries whose blocks are there are read back; of the others there are none. -/
theorem readParams_blocks [DecidableEq ι] {u m v : List Char} (h : Anchor.resourcesTag.OnlyPlace u m v)
    (hbase : occursIn (entryStart (s.stem k)) (u ++ m ++ v) = false) {is : List ι} (hnodup : is.Nodup) :
    readParams (s.stem k) (u ++ m ++ (is.flatMap (s.block .strings) ++ v)) =
      if k ∈ is then (s.get k).params else [] := by
  split
  next hk =>
    obtain ⟨l₁, l₂, rfl⟩ := List.append_of_mem hk
    have hothers : k ∉ l₁ ++ l₂ := by
      rw [List.nodup_middle, List.nodup_cons] at hnodup
      exact hnodup.1
    have hfresh := occursIn_entryStart h hbase hothers
    obtain ⟨t, ht⟩ := List.getLast?_eq_some_iff.mp (getLast_append_blocks (s := s) (getLast_resourcesTag h) l₁)
    have hsplit : u ++ m ++ ((l₁ ++ k :: l₂).flatMap (s.block .strings) ++ v) =
        t ++ ['\n'] ++ entryLines (s.stem k) (s.get k).params ++ (l₂.flatMap (s.block .strings) ++ v) := by
      rw [← ht, ← block_strings]
      simp
    have hfresh' : occursIn (entryStart (s.stem k)) (t ++ ['\n'] ++ (l₂.flatMap (s.block .strings) ++ v)) = false := by
      rw [← ht, ← hfresh]
      simp
    rw [hsplit, readParams_entryLines (s.plain k).params newline_notMem_stem hfresh']
  next hk => exact readParams_of_no_entry (occursIn_entryStart h hbase hk)

end Selection

end Android
end ModuleLink
