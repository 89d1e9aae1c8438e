import Mathlib
import ModuleLink.Proofs.Entries
import ModuleLink.Proofs.Plist.Quoting
import ModuleLink.Xcode.Edit

/-!
Ids: words that stand for themselves, new ones that no object has, and the index that lists them by kind.
-/

namespace ModuleLink
namespace Xcode

open Plist

/-! ## Plain words -/

/-- A word that is read as it is, without quotes. -/
structure IsPlain (s : String) : Prop where
  token : IsToken s.toList
  unquoted : s.toList.head? ≠ some '"'

theorem IsPlain.isWritten {s : String} (h : IsPlain s) {comment : Option String}
    (hcomment : ∀ c, comment = some c → IsComment c) : Scalar.IsWritten ⟨s, comment⟩ :=
  ⟨h.token, hcomment⟩

theorem IsPlain.value {s : String} (h : IsPlain s) (comment : Option String) : Scalar.value ⟨s, comment⟩ = s :=
  Scalar.value_of_head h.unquoted

theorem isPlain_of_wordParts {cs : List Char} (hne : cs ≠ []) (h : ∀ c ∈ cs, isWordPart c = true) :
    IsPlain (String.ofList cs) := by
  have hword : word cs = (cs, []) := by
    clear hne
    induction cs with
    | nil => rfl
    | cons c cs ih => rw [word_part (h c (by simp)), ih fun d hd => h d (by simp [hd])]
  obtain ⟨d, rest, rfl⟩ := List.exists_cons_of_ne_nil hne
  have hd : d ≠ '"' := by
    rintro rfl
    exact absurd (h '"' (by simp)) (by decide)
  refine ⟨?_, ?_⟩
  · rw [String.toList_ofList, IsToken, token?_of_ne hd, hword, if_neg (by simp)]
  · rw [String.toList_ofList, List.head?_cons]
    exact fun e => hd (Option.some.inj e)

/-- Where the blank characters are. -/
def blankCodes : List Nat :=
  [9, 10, 11, 12, 13, 28, 29, 30, 31, 32, 0x85, 0xA0, 0x1680, 0x2000, 0x2001, 0x2002, 0x2003, 0x2004, 0x2005, 0x2006,
    0x2007, 0x2008, 0x2009, 0x200A, 0x2028, 0x2029, 0x202F, 0x205F, 0x3000]

theorem isBlank_of_isWord {c : Char} (h : Text.isWord c = true) : Text.isBlank c = false := by
  have hcodes : ∀ n ∈ blankCodes, Text.isWord (Char.ofNat n) = false := by decide +kernel
  rw [← Bool.not_eq_true]
  intro hblank
  have hmem : c.toNat ∈ blankCodes := by
    simp only [Text.isBlank, Bool.or_eq_true, Bool.and_eq_true, decide_eq_true_eq, beq_iff_eq] at hblank
    simp only [blankCodes, List.mem_cons, List.not_mem_nil, or_false]
    omega
  have hno := hcodes _ hmem
  rw [Char.ofNat_toNat, h] at hno
  exact Bool.noConfusion hno

theorem isWordPart_of_isWord {c : Char} (h : Text.isWord c = true) : isWordPart c = true := by
  have hne (d : Char) (hd : Text.isWord d = false) : c ≠ d := by
    rintro rfl
    rw [hd] at h
    contradiction
  simp only [isWordPart, isBlank_of_isWord h, Bool.false_or, Bool.not_eq_true', Bool.or_eq_false_iff,
    beq_eq_false_iff_ne]
  exact ⟨⟨⟨⟨⟨⟨⟨⟨hne _ (by decide), hne _ (by decide)⟩, hne _ (by decide)⟩, hne _ (by decide)⟩, hne _ (by decide)⟩,
    hne _ (by decide)⟩, hne _ (by decide)⟩, hne _ (by decide)⟩, hne _ (by decide)⟩

/-! ## Ids -/

theorem isWordPart_upperHex (n : Nat) : isWordPart (Digest.upperHex n) = true := by
  have hdigit : ∀ d < 16, isWordPart (Nat.digitChar d).toUpper = true := by
    intro d hd
    interval_cases d <;> decide
  exact hdigit (n % 16) (Nat.mod_lt n (by decide))

theorem md5_ne_nil (bytes : List UInt8) : Digest.md5 bytes ≠ [] := by
  rw [Digest.md5]
  simp [Digest.littleEndian]

theorem stableId_isPlain (seed : String) : IsPlain (Digest.stableId seed) := by
  refine isPlain_of_wordParts ?_ fun c hc => ?_
  · obtain ⟨b, rest, h⟩ := List.exists_cons_of_ne_nil (md5_ne_nil seed.toUTF8.toList)
    rw [h]
    simp
  · obtain ⟨b, -, hb⟩ := List.mem_flatMap.mp hc
    rcases List.mem_cons.mp hb with rfl | hb
    · exact isWordPart_upperHex _
    · obtain rfl := List.mem_singleton.mp hb
      exact isWordPart_upperHex _

theorem lt_length_spareId {ids : List String} : ∀ id ∈ ids, id.length < (spareId ids).length := by
  simp only [spareId, String.length_ofList, List.length_replicate]
  induction ids with
  | nil => simp
  | cons id ids ih =>
    intro i hi
    rw [List.foldr_cons, Nat.add_assoc]
    rcases List.mem_cons.mp hi with rfl | hi
    · omega
    · exact Nat.lt_add_left _ (ih i hi)

theorem spareId_notMem (ids : List String) : spareId ids ∉ ids :=
  fun h => Nat.lt_irrefl _ (lt_length_spareId _ h)

theorem spareId_isPlain (ids : List String) : IsPlain (spareId ids) := by
  refine isPlain_of_wordParts (by simp) fun c hc => ?_
  rw [List.eq_of_mem_replicate hc]
  decide

/-- The new id is one that is free, whichever seed gives it. -/
theorem freshId_cases {taken : String → Bool} {spare : String} (hspare : taken spare = false) (n : Nat) (seed : String) :
    taken (freshId taken spare n seed) = false ∧
      (freshId taken spare n seed = spare ∨ ∃ s, freshId taken spare n seed = Digest.stableId s) := by
  induction n generalizing seed with
  | zero => exact ⟨hspare, .inl rfl⟩
  | succ n ih =>
    by_cases htaken : taken (Digest.stableId seed) = true
    · simp only [freshId, htaken, if_true]
      exact ih (seed ++ "+")
    · simp only [freshId, htaken]
      exact ⟨Bool.not_eq_true _ ▸ htaken, .inr ⟨seed, rfl⟩⟩

namespace Graph

variable {g : Graph} {id : String} {o : Object}

theorem get?_mem (h : g.get? id = some o) : o ∈ g.objects ∧ o.id = id :=
  ⟨List.mem_of_find?_eq_some h, by simpa using List.find?_some h⟩

theorem contains_iff : g.contains id = true ↔ id ∈ g.ids := by
  simp only [contains, get?, List.find?_isSome, beq_iff_eq, ids, List.mem_map]

theorem get?_of_mem (hnodup : g.ids.Nodup) (ho : o ∈ g.objects) : g.get? o.id = some o := by
  obtain ⟨p, hp⟩ := Option.isSome_iff_exists.mp (contains_iff.mpr (List.mem_map_of_mem ho))
  obtain ⟨hmem, hid⟩ := get?_mem hp
  rw [hp, List.inj_on_of_nodup_map hnodup hmem ho hid]

theorem get?_eq_none_iff : g.get? id = none ↔ id ∉ g.ids := by
  rw [← contains_iff, contains, Bool.not_eq_true, Option.isSome_eq_false_iff, Option.isNone_iff_eq_none]

theorem newId_notMem (g : Graph) (seed : String) : g.newId seed ∉ g.ids := by
  have hspare : g.contains (spareId g.ids) = false := by
    rw [← Bool.not_eq_true, contains_iff]
    exact spareId_notMem g.ids
  have hfree := (freshId_cases hspare (g.objects.length + 1) seed).1
  rw [← contains_iff, Bool.not_eq_true]
  exact hfree

theorem newId_isPlain (g : Graph) (seed : String) : IsPlain (g.newId seed) := by
  have hspare : g.contains (spareId g.ids) = false := by
    rw [← Bool.not_eq_true, contains_iff]
    exact spareId_notMem g.ids
  rcases (freshId_cases hspare (g.objects.length + 1) seed).2 with h | ⟨s, h⟩
  · rw [newId, h]
    exact spareId_isPlain _
  · rw [newId, h]
    exact stableId_isPlain s

end Graph

/-! ## The index -/

/-- The ids of a kind among objects, in order. -/
def idsOfKind (os : List Object) (isa : String) : List String := (os.filter fun o => o.isa == isa).map (·.id)

/-- The ids that an index lists under a kind. -/
def listed (index : List (String × List String)) (isa : String) : List String := (index.lookup isa).getD []

theorem listed_indexInsert (isa id : String) (index : List (String × List String)) (k : String) :
    listed (indexInsert isa id index) k = if k = isa then listed index k ++ [id] else listed index k := by
  simp only [listed]
  induction index with
  | nil =>
    rw [indexInsert]
    by_cases hk : k = isa
    · subst hk
      rw [Entries.lookup_cons_self, if_pos rfl]
      rfl
    · rw [Entries.lookup_cons_of_ne hk, if_neg hk]
  | cons e index ih =>
    obtain ⟨k', ids⟩ := e
    rw [indexInsert]
    by_cases hk' : k' = isa
    · subst hk'
      rw [if_pos rfl]
      by_cases hk : k = k'
      · subst hk
        rw [Entries.lookup_cons_self, Entries.lookup_cons_self, if_pos rfl]
        rfl
      · rw [Entries.lookup_cons_of_ne hk, Entries.lookup_cons_of_ne hk, if_neg hk]
    · rw [if_neg hk']
      by_cases hk : k = k'
      · subst hk
        rw [Entries.lookup_cons_self, Entries.lookup_cons_self, if_neg hk']
      · rw [Entries.lookup_cons_of_ne hk, Entries.lookup_cons_of_ne hk, ih]

theorem idsOfKind_append_singleton (os : List Object) (o : Object) (k : String) :
    idsOfKind (os ++ [o]) k = if k = o.isa then idsOfKind os k ++ [o.id] else idsOfKind os k := by
  rw [idsOfKind, List.filter_append, List.map_append]
  by_cases hk : k = o.isa
  · rw [if_pos hk, List.filter_cons_of_pos (by simp [hk])]
    rfl
  · rw [if_neg hk, List.filter_cons_of_neg (by simp [Ne.symm hk]), List.filter_nil, List.map_nil, List.append_nil]
    rfl

/-- The index of objects lists the ids of every kind in the order of the objects. -/
theorem listed_foldl (os : List Object) (k : String) :
    listed (os.foldl (fun ix o => indexInsert o.isa o.id ix) []) k = idsOfKind os k := by
  induction os using List.reverseRecOn with
  | nil => rfl
  | append_singleton os o ih =>
    rw [List.foldl_append, List.foldl_cons, List.foldl_nil, listed_indexInsert, ih, idsOfKind_append_singleton]

end Xcode
end ModuleLink
