import Mathlib
import ModuleLink.Proofs.Plist.Token

/-!
Quoting: the written form of a text is one token, and it stands for the text.
-/

namespace ModuleLink
namespace Plist

/-! ## Unquoting undoes quoting -/

theorem unescape_cons {c : Char} (hc : c ≠ '\\') (cs : List Char) : unescape (c :: cs) = c :: unescape cs := by
  rw [unescape.eq_def]
  split
  next heq => exact absurd heq (by simp)
  next heq => exact absurd (List.cons.inj heq).1 hc
  next heq => exact absurd (List.cons.inj heq).1 hc
  next heq =>
    obtain ⟨rfl, rfl⟩ := List.cons.inj heq
    rfl

theorem unescape_escapeChar (c : Char) (cs : List Char) : unescape (escapeChar c ++ cs) = c :: unescape cs := by
  rw [escapeChar]
  split
  next h => rw [h]; rfl
  split
  next h => rw [h]; rfl
  split
  next h => rw [h]; rfl
  split
  next h => rw [h]; rfl
  · exact unescape_cons (by assumption) cs

theorem unescape_escape (cs : List Char) : unescape (escape cs) = cs := by
  induction cs with
  | nil => rfl
  | cons c cs ih => rw [escape, List.flatMap_cons, unescape_escapeChar, ← escape, ih]

theorem quotedBody?_of_head {cs : List Char} (h : cs.head? ≠ some '"') : quotedBody? cs = none := by
  rw [quotedBody?.eq_def]
  split
  · exact absurd rfl h
  · rfl

/-- A text that does not start with a quote stands for itself. -/
theorem unquoteChars_of_head {cs : List Char} (h : cs.head? ≠ some '"') : unquoteChars cs = cs := by
  rw [unquoteChars, quotedBody?_of_head h]

theorem isBlank_of_isAlphanum {c : Char} (h : c.isAlphanum = true) : Text.isBlank c = false := by
  have hends : 'A'.val.toNat = 65 ∧ 'Z'.val.toNat = 90 ∧ 'a'.val.toNat = 97 ∧ 'z'.val.toNat = 122 ∧
      '0'.val.toNat = 48 ∧ '9'.val.toNat = 57 := by decide
  have hval : c.toNat = c.val.toNat := rfl
  simp only [Char.isAlphanum, Char.isAlpha, Char.isUpper, Char.isLower, Char.isDigit, Bool.or_eq_true,
    Bool.and_eq_true, decide_eq_true_eq, ge_iff_le, UInt32.le_iff_toNat_le] at h
  simp only [Text.isBlank, hval, Bool.or_eq_false_iff, Bool.and_eq_false_imp, decide_eq_true_eq,
    decide_eq_false_iff_not, beq_eq_false_iff_ne]
  omega

theorem isBare_cases {c : Char} (h : isBare c = true) : isWordPart c = true ∨ c = '/' := by
  by_cases hslash : c = '/'
  · exact .inr hslash
  refine .inl ?_
  have hne (d : Char) (hd : isBare d = false) : c ≠ d := by
    rintro rfl
    rw [hd] at h
    contradiction
  have hblank : Text.isBlank c = false := by
    simp only [isBare, Bool.or_eq_true, beq_iff_eq] at h
    rcases h with ((((h | rfl) | rfl) | rfl) | rfl) | rfl
    · exact isBlank_of_isAlphanum h
    all_goals decide
  simp only [isWordPart, hblank, Bool.false_or, Bool.not_eq_true', Bool.or_eq_false_iff, beq_eq_false_iff_ne]
  exact ⟨⟨⟨⟨⟨⟨⟨⟨hne _ (by decide), hne _ (by decide)⟩, hne _ (by decide)⟩, hne _ (by decide)⟩, hne _ (by decide)⟩,
    hne _ (by decide)⟩, hne _ (by decide)⟩, hne _ (by decide)⟩, hslash⟩

theorem unquoteChars_quoteChars (cs : List Char) : unquoteChars (quoteChars cs) = cs := by
  rw [quoteChars]
  split
  next hbare =>
    refine unquoteChars_of_head fun hhead => ?_
    obtain ⟨s, rfl⟩ := List.head?_eq_some_iff.mp hhead
    simp only [List.all_cons, Bool.and_eq_true] at hbare
    exact absurd hbare.2.1 (by decide)
  · have hbody : quotedBody? ('"' :: (escape cs ++ ['"'])) = some (escape cs) := by simp [quotedBody?]
    rw [List.cons_append, unquoteChars, hbody]
    exact unescape_escape cs

theorem unquote_quote (s : String) : unquote (quote s) = s := by
  rw [unquote, quote, String.toList_ofList, unquoteChars_quoteChars, String.ofList_toList]

theorem Scalar.value_of (s : String) (comment : Option String) : (Scalar.of s comment).value = s :=
  unquote_quote s

/-- A word stands for itself. -/
theorem Scalar.value_of_head {s : Scalar} (h : s.text.toList.head? ≠ some '"') : s.value = s.text := by
  rw [Scalar.value, unquote, unquoteChars_of_head h, String.ofList_toList]

/-! ## One written form for each text -/

/-- Every occurrence of the character gives way to the text. -/
def substitute (c : Char) (written cs : List Char) : List Char := cs.flatMap fun d => if d = c then written else [d]

/-- The special characters are escaped one after the other.  The backslash comes first, since the others are escaped
with it. -/
def escapeInTurn (cs : List Char) : List Char :=
  let slashes := substitute '\\' ['\\', '\\'] cs
  let quotes := substitute '"' ['\\', '"'] slashes
  let feeds := substitute '\n' ['\\', 'n'] quotes
  substitute '\t' ['\\', 't'] feeds

theorem substitute_append (c : Char) (written cs ds : List Char) :
    substitute c written (cs ++ ds) = substitute c written cs ++ substitute c written ds := List.flatMap_append

theorem escapeInTurn_append (cs ds : List Char) : escapeInTurn (cs ++ ds) = escapeInTurn cs ++ escapeInTurn ds := by
  simp only [escapeInTurn, substitute_append]

theorem escapeInTurn_singleton (c : Char) : escapeInTurn [c] = escapeChar c := by
  by_cases hslash : c = '\\'
  · rw [hslash]
    rfl
  by_cases hquote : c = '"'
  · rw [hquote]
    rfl
  by_cases hfeed : c = '\n'
  · rw [hfeed]
    rfl
  by_cases htab : c = '\t'
  · rw [htab]
    rfl
  simp [escapeInTurn, substitute, escapeChar, hslash, hquote, hfeed, htab]

/-- One pass over the text escapes as one for each special character does: what is written for one holds none that is
still to come. -/
theorem escape_eq_escapeInTurn (cs : List Char) : escape cs = escapeInTurn cs := by
  induction cs with
  | nil => rfl
  | cons c cs ih =>
    calc escape (c :: cs) = escapeChar c ++ escape cs := List.flatMap_cons
      _ = escapeInTurn [c] ++ escapeInTurn cs := by rw [escapeInTurn_singleton, ih]
      _ = escapeInTurn (c :: cs) := (escapeInTurn_append [c] cs).symm

/-- A text of bare characters is written as it is, and every other one between quotes, with its special characters
escaped in turn.  What is written stands for the text, so no two texts are written alike. -/
theorem quote_faithful :
    (∀ s, (quote s).toList = if s.toList ≠ [] ∧ ∀ c ∈ s.toList, isBare c = true then s.toList
      else '"' :: escapeInTurn s.toList ++ ['"']) ∧
    (∀ s, unquote (quote s) = s) ∧ Function.Injective quote := by
  refine ⟨fun s => ?_, unquote_quote, Function.LeftInverse.injective unquote_quote⟩
  rw [quote, String.toList_ofList, quoteChars, escape_eq_escapeInTurn]
  simp only [Bool.and_eq_true, Bool.not_eq_true', List.isEmpty_eq_false_iff, List.all_eq_true, ne_eq]

-- A backslash in front of an n is not taken for a line feed.
example : quote "\\n" = "\"\\\\n\"" ∧ quote "\n" = "\"\\n\"" := by decide

/-! ## What is quoted is one token -/

/-- The text is no bare word that holds the start of a comment. -/
def IsQuotable (s : String) : Prop := s.toList.all isBare = true → ¬ ['/', '/'] <:+: s.toList

theorem quotedTail?_escapeChar (c : Char) (cs : List Char) :
    quotedTail? (escapeChar c ++ cs) = (quotedTail? cs).map fun r => (escapeChar c ++ r.1, r.2) := by
  rw [escapeChar]
  split
  · rfl
  split
  · rfl
  split
  · rfl
  split
  · rfl
  · exact quotedTail?_cons (by assumption) (by assumption) cs

theorem quotedTail?_escape (cs rest : List Char) :
    quotedTail? (escape cs ++ '"' :: rest) = some (escape cs ++ ['"'], rest) := by
  induction cs with
  | nil => rfl
  | cons c cs ih =>
    rw [escape, List.flatMap_cons, List.append_assoc, ← escape, quotedTail?_escapeChar, ih, Option.map_some,
      List.append_assoc]

/-- Bare characters make a word, unless two slashes follow each other. -/
theorem word_of_isBare {cs : List Char} (hbare : ∀ c ∈ cs, isBare c = true) (hslash : ¬ ['/', '/'] <:+: cs) :
    word cs = (cs, []) := by
  induction cs with
  | nil => rfl
  | cons c cs ih =>
    have hrest := ih (fun d hd => hbare d (by simp [hd])) fun hin => hslash (hin.trans (List.suffix_cons c cs).isInfix)
    rcases isBare_cases (hbare c (by simp)) with hpart | rfl
    · rw [word_part hpart, hrest]
    · cases cs with
      | nil => rfl
      | cons d cs =>
        have hd : d ≠ '/' ∧ d ≠ '*' := by
          constructor
          · rintro rfl
            exact hslash ⟨[], cs, rfl⟩
          · rintro rfl
            exact absurd (hbare '*' (by simp)) (by decide)
        rw [word_slash hd, hrest]

theorem isToken_quote {s : String} (h : IsQuotable s) : IsToken (quote s).toList := by
  rw [quote, String.toList_ofList, quoteChars]
  split
  next hbare =>
    simp only [Bool.and_eq_true, Bool.not_eq_true', List.isEmpty_eq_false_iff] at hbare
    obtain ⟨d, cs, hs⟩ := List.exists_cons_of_ne_nil hbare.1
    have hword := word_of_isBare (List.all_eq_true.mp hbare.2) (h hbare.2)
    have hd : d ≠ '"' := by
      rintro rfl
      rw [hs, List.all_cons, Bool.and_eq_true] at hbare
      exact absurd hbare.2.1 (by decide)
    rw [hs] at hword ⊢
    rw [IsToken, token?_of_ne hd, hword]
    exact if_neg (by simp)
  · rw [IsToken, List.cons_append, token?_quote, quotedTail?_escape]
    rfl

/-- A word holds no two slashes in a row: the comment that they open would end it. -/
theorem not_slashes_of_word {cs : List Char} (h : word cs = (cs, [])) : ¬ ['/', '/'] <:+: cs := by
  induction cs with
  | nil => simp
  | cons c cs ih =>
    rcases word_cons_cases c cs with ⟨hpart, hword⟩ | ⟨rfl, hslash, -, hword⟩ | hword
    · obtain ⟨hfst, hsnd⟩ := Prod.mk.inj (hword.symm.trans h)
      rw [List.infix_cons_iff, not_or]
      refine ⟨?_, ih (Prod.ext (List.cons.inj hfst).2 hsnd)⟩
      rintro ⟨t, ht⟩
      obtain ⟨rfl, -⟩ := List.cons.inj ht
      exact absurd hpart (by decide)
    · obtain ⟨hfst, hsnd⟩ := Prod.mk.inj (hword.symm.trans h)
      rw [List.infix_cons_iff, not_or]
      refine ⟨?_, ih (Prod.ext (List.cons.inj hfst).2 hsnd)⟩
      rintro ⟨t, ht⟩
      rw [← (List.cons.inj ht).2] at hslash
      exact hslash rfl
    · obtain ⟨hfst, -⟩ := Prod.mk.inj (hword.symm.trans h)
      contradiction

/-- What is quoted is one token exactly where it can be told from a comment. -/
theorem isToken_quote_iff {s : String} : IsToken (quote s).toList ↔ IsQuotable s := by
  refine ⟨fun h hbare hslashes => ?_, isToken_quote⟩
  obtain ⟨d, cs, hs⟩ : ∃ d cs, s.toList = d :: cs := by
    refine List.exists_cons_of_ne_nil ?_
    rintro hnil
    rw [hnil] at hslashes
    exact absurd hslashes (by simp)
  have hd : d ≠ '"' := by
    rintro rfl
    rw [hs, List.all_cons, Bool.and_eq_true] at hbare
    exact absurd hbare.1 (by decide)
  have hquote : (quote s).toList = d :: cs := by
    rw [quote, String.toList_ofList, quoteChars, hbare, hs]
    rfl
  rw [hquote, IsToken, token?_of_ne hd] at h
  split at h
  · contradiction
  · exact not_slashes_of_word (Option.some.inj h) (hs ▸ hslashes)

theorem Scalar.isWritten_of {s : String} {comment : Option String} (h : IsQuotable s)
    (hcomment : ∀ c, comment = some c → IsComment c) : (Scalar.of s comment).IsWritten :=
  ⟨isToken_quote h, hcomment⟩

/-- Before the end of an entry, of an item or of a key, a quoted text is read as one scalar without a comment exactly
where it can be told from a comment. -/
theorem scalar_quote_iff (s : String) {rest : List Char}
    (hrest : ∃ t, rest = ';' :: t ∨ rest = ',' :: t ∨ rest = ' ' :: '=' :: ' ' :: t) :
    scalar ((quote s).toList ++ rest) = .ok (Scalar.of s, rest) ↔ IsQuotable s := by
  constructor
  · intro h
    exact isToken_quote_iff.mp (isWritten_of_scalar h).token
  · intro h
    have hwritten : (Scalar.of s).IsWritten := Scalar.isWritten_of h (by simp)
    obtain ⟨t, rfl | rfl | rfl⟩ := hrest
    · exact hwritten.scalar_render rfl (by simp) (trailingComment_mark (by decide) t)
    · exact hwritten.scalar_render rfl (by simp) (trailingComment_mark (by decide) t)
    · exact hwritten.scalar_render rfl (by simp) (trailingComment_space (by decide) (' ' :: t))

theorem scalar_quote_url : scalar ((quote "http://h/a b").toList ++ ";\n".toList) =
    .ok (Scalar.of "http://h/a b", ";\n".toList) :=
  (scalar_quote_iff "http://h/a b" ⟨['\n'], .inl rfl⟩).mpr fun hbare => absurd hbare (by decide)

/-- A bare text that holds the start of a comment is cut off there. -/
theorem scalar_quote_slashes : quote "a//b" = "a//b" ∧
    scalar ((quote "a//b").toList ++ [';']) = .ok (⟨"a", none⟩, "//b;".toList) := by
  have hquote : quote "a//b" = "a//b" := by decide
  refine ⟨hquote, ?_⟩
  have hskip : skip "a//b;".toList = .ok "a//b;".toList :=
    skip_of_startsSolid ⟨'a', "//b;".toList, rfl, by decide, fun h => absurd h (by decide)⟩
  have htoken : token? "a//b;".toList = some (['a'], "//b;".toList) := by decide
  have hcomment : trailingComment "//b;".toList = .ok (none, "//b;".toList) := rfl
  rw [hquote]
  exact scalar_of hskip htoken hcomment

end Plist
end ModuleLink
