import ModuleLink.Plist.Render
import ModuleLink.Proofs.Plist.Local
import ModuleLink.Proofs.Text.Trim

/-!
Scalars that a reader takes for what they are: one token, and a comment that ends where it should.  They are what a text
can hold, and a text that holds them is read back.
-/

namespace ModuleLink
namespace Plist

/-! ## Tokens -/

/-- The whole text is one quoted scalar or one bare word. -/
def IsToken (cs : List Char) : Prop := token? cs = some (cs, [])

instance (cs : List Char) : Decidable (IsToken cs) := inferInstanceAs (Decidable (_ = _))

/-- A character that no bare word goes on with. -/
def isEnd (c : Char) : Bool := !isWordPart c && c != '/'

theorem isEnd_mark {e : Char} (he : isMark e = true) : isEnd e = true := by
  rcases mark_cases he with rfl | rfl | rfl | rfl | rfl | rfl | rfl <;> decide

section Token

variable {e : Char} {cs w t : List Char}

theorem isEnd_iff : isEnd e = true ↔ isWordPart e = false ∧ e ≠ '/' := by
  simp [isEnd]

theorem end_ne_star (he : isEnd e = true) : e ≠ '*' := by
  rintro rfl
  exact absurd he (by decide)

theorem isBlank_of_isWordPart {c : Char} (hc : isWordPart c = true) : Text.isBlank c = false := by
  simp only [isWordPart, Bool.not_eq_true', Bool.or_eq_false_iff] at hc
  tauto

/-- What a word starts with. -/
theorem word_cons_cases (d : Char) (s : List Char) :
    (isWordPart d = true ∧ word (d :: s) = (d :: (word s).1, (word s).2)) ∨
    (d = '/' ∧ s.head? ≠ some '/' ∧ s.head? ≠ some '*' ∧ word (d :: s) = (d :: (word s).1, (word s).2)) ∨
    word (d :: s) = ([], d :: s) := by
  by_cases hpart : isWordPart d = true
  · exact .inl ⟨hpart, word_part hpart s⟩
  by_cases hslash : d = '/'
  · subst hslash
    cases s with
    | nil => exact .inr (.inl ⟨rfl, by simp, by simp, rfl⟩)
    | cons x s =>
      by_cases hopen : x ≠ '/' ∧ x ≠ '*'
      · exact .inr (.inl ⟨rfl, by simpa using hopen.1, by simpa using hopen.2, word_slash hopen s⟩)
      · refine .inr (.inr (word_comment ?_ s))
        rw [not_and_or, not_not, not_not] at hopen
        exact hopen
  · exact .inr (.inr (word_of_not_part (by simpa using hpart) hslash s))

/-- What comes before the end of a word is a word. -/
theorem word_fst (cs : List Char) : word (word cs).1 = ((word cs).1, []) := by
  induction cs with
  | nil => rfl
  | cons d s ih =>
    rcases word_cons_cases d s with ⟨hpart, h⟩ | ⟨rfl, hslash, hstar, h⟩ | h
    · rw [h, word_part hpart, ih]
    · have happend := word_append s
      cases hs : (word s).1 with
      | nil =>
        rw [h, hs]
        rfl
      | cons x s' =>
        rw [hs, List.cons_append] at happend
        rw [← happend, List.head?_cons] at hslash hstar
        rw [hs] at ih
        rw [h, hs, word_slash ⟨by simpa using hslash, by simpa using hstar⟩, ih]
    · rw [h]
      rfl

theorem word_append_end (hw : word w = (w, [])) (he : isEnd e = true) (t : List Char) :
    word (w ++ e :: t) = (w, e :: t) := by
  obtain ⟨hpart, hslash⟩ := isEnd_iff.mp he
  induction w with
  | nil => exact word_of_not_part hpart hslash t
  | cons d w ih =>
    rcases word_cons_cases d w with ⟨hd, h⟩ | ⟨rfl, hdslash, hdstar, h⟩ | h
    · have hw' : word w = (w, []) := by
        rw [h] at hw
        exact Prod.ext (List.cons.inj (Prod.mk.inj hw).1).2 (Prod.mk.inj hw).2
      rw [List.cons_append, word_part hd, ih hw']
    · have hw' : word w = (w, []) := by
        rw [h] at hw
        exact Prod.ext (List.cons.inj (Prod.mk.inj hw).1).2 (Prod.mk.inj hw).2
      cases w with
      | nil =>
        rw [List.cons_append, List.nil_append, word_slash ⟨hslash, end_ne_star he⟩,
          word_of_not_part hpart hslash]
      | cons x w =>
        rw [List.head?_cons] at hdslash hdstar
        rw [List.cons_append, List.cons_append, word_slash ⟨by simpa using hdslash, by simpa using hdstar⟩,
          ← List.cons_append, ih hw']
    · rw [h] at hw
      exact absurd (Prod.mk.inj hw).1 (by simp)

/-- A token is read up to its end. -/
theorem IsToken.token?_append (hw : IsToken w) (he : isEnd e = true) (t : List Char) :
    token? (w ++ e :: t) = some (w, e :: t) := by
  cases w with
  | nil => exact absurd hw (by decide)
  | cons d s =>
    rw [IsToken] at hw
    by_cases hd : d = '"'
    · subst hd
      rw [token?_quote] at hw
      obtain ⟨⟨text, left⟩, htail, hpair⟩ := Option.map_eq_some_iff.mp hw
      obtain ⟨htext, rfl⟩ := Prod.mk.inj hpair
      obtain rfl := (List.cons.inj htext).2
      have htail' : quotedTail? (text ++ []) = some (text, []) := by rw [List.append_nil, htail]
      rw [List.cons_append, token?_quote, quotedTail?_congr htail']
      rfl
    · rw [token?_of_ne hd] at hw
      split at hw
      · contradiction
      · rw [List.cons_append, token?_of_ne hd, ← List.cons_append, word_append_end (Option.some.inj hw) he]
        exact if_neg (by simp)

/-- What is read as a token is one. -/
theorem isToken_of_token? {text left : List Char} (h : token? cs = some (text, left)) : IsToken text := by
  cases cs with
  | nil => contradiction
  | cons d s =>
    by_cases hd : d = '"'
    · subst hd
      rw [token?_quote] at h
      obtain ⟨⟨body, left'⟩, htail, hpair⟩ := Option.map_eq_some_iff.mp h
      obtain ⟨rfl, rfl⟩ := Prod.mk.inj hpair
      have hs := quotedTail?_suffix htail
      have hbody := quotedTail?_congr (hs ▸ htail) []
      rw [List.append_nil] at hbody
      rw [IsToken, token?_quote, hbody]
      rfl
    · rw [token?_of_ne hd] at h
      split at h
      · contradiction
      next hne =>
        have hword := word_fst (d :: s)
        rw [Option.some.inj h] at hword hne
        simp only at hword hne
        cases text with
        | nil => exact absurd rfl hne
        | cons x text =>
          have hx : x ≠ '"' := by
            rintro rfl
            rw [word_of_not_part (by decide) (by decide)] at hword
            exact hne (Prod.mk.inj hword).1.symm
          rw [IsToken, token?_of_ne hx, hword]
          exact if_neg hne

/-- What a token may start with. -/
theorem IsToken.head_cases {d : Char} {s : List Char} (h : IsToken (d :: s)) :
    d = '"' ∨ isWordPart d = true ∨ (d = '/' ∧ s.head? ≠ some '/' ∧ s.head? ≠ some '*') := by
  by_cases hd : d = '"'
  · exact .inl hd
  rw [IsToken, token?_of_ne hd] at h
  rcases word_cons_cases d s with ⟨hpart, -⟩ | ⟨hslash, hs, hs', -⟩ | hnone
  · exact .inr (.inl hpart)
  · exact .inr (.inr ⟨hslash, hs, hs'⟩)
  · rw [hnone] at h
    contradiction

theorem IsToken.exists_cons (h : IsToken w) : ∃ d s, w = d :: s := by
  cases w with
  | nil => exact absurd h (by decide)
  | cons d s => exact ⟨d, s, rfl⟩

theorem IsToken.startsSolid (h : IsToken w) (he : isEnd e = true) (t : List Char) : StartsSolid (w ++ e :: t) := by
  obtain ⟨d, s, rfl⟩ := h.exists_cons
  refine ⟨d, s ++ e :: t, rfl, ?_, ?_⟩
  · rcases h.head_cases with rfl | hpart | ⟨rfl, -⟩
    · decide
    · exact isBlank_of_isWordPart hpart
    · decide
  · rintro rfl
    rcases h.head_cases with hd | hpart | ⟨-, hslash, hstar⟩
    · exact absurd hd (by decide)
    · exact absurd hpart (by decide)
    · cases s with
      | nil => exact ⟨by simpa using (isEnd_iff.mp he).2, by simpa using end_ne_star he⟩
      | cons x s => exact ⟨by simpa using hslash, by simpa using hstar⟩

theorem IsToken.head?_ne {c : Char} (h : IsToken w) (hc : isMark c = true) (rest : List Char) :
    (w ++ rest).head? ≠ some c := by
  obtain ⟨d, s, rfl⟩ := h.exists_cons
  rw [List.cons_append, List.head?_cons, Ne, Option.some.injEq]
  rintro rfl
  rcases h.head_cases with hd | hpart | ⟨hd, -⟩
  · exact (mark_ne hc).2.2 hd
  · rw [isWordPart_mark hc] at hpart
    contradiction
  · exact (mark_ne hc).1 hd

end Token

/-! ## Comments -/

/-- Nothing in the text ends a comment. -/
def StaysOpen (cs : List Char) : Prop := ¬ ['*', '/'] <:+: cs

theorem StaysOpen.closeComment? {cs : List Char} (h : StaysOpen cs) (rest : List Char) :
    closeComment? (cs ++ '*' :: '/' :: rest) = some (cs, rest) := by
  induction cs with
  | nil => rfl
  | cons c cs ih =>
    have hcs : StaysOpen cs := fun hin => h (hin.trans (List.suffix_cons c cs).isInfix)
    rw [List.cons_append, Plist.closeComment?.eq_def]
    split
    next after heq =>
      -- The first two characters would close the comment, but they belong to the text or to its end.
      obtain ⟨rfl, htail⟩ := List.cons.inj heq
      cases cs with
      | nil => exact absurd (List.cons.inj htail).1 (by decide)
      | cons d cs =>
        obtain ⟨rfl, -⟩ := List.cons.inj htail
        exact absurd ⟨[], cs, rfl⟩ h
    next c' cs' _ heq =>
      obtain ⟨rfl, rfl⟩ := List.cons.inj heq
      rw [ih hcs]
      rfl
    next hnil => exact absurd hnil (by simp)

theorem staysOpen_of_closeComment? {cs inside rest : List Char} (h : closeComment? cs = some (inside, rest)) :
    StaysOpen inside := by
  rintro ⟨a, b, rfl⟩
  have hcs := closeComment?_suffix h
  have hclose (a : List Char) : ∀ cs, cs = a ++ '*' :: '/' :: (b ++ '*' :: '/' :: rest) → ∀ r,
      closeComment? cs = some r → r.1.length ≤ a.length := by
    induction a with
    | nil =>
      rintro _ rfl r hr
      obtain rfl := Option.some.inj hr
      exact Nat.le_refl _
    | cons c a ih =>
      rintro _ rfl r hr
      rw [List.cons_append, closeComment?.eq_def] at hr
      split at hr
      · obtain rfl := Option.some.inj hr
        exact Nat.zero_le _
      next c' cs' _ heq =>
        obtain ⟨rfl, rfl⟩ := List.cons.inj heq
        obtain ⟨r', hr', rfl⟩ := Option.map_eq_some_iff.mp hr
        exact Nat.succ_le_succ (ih _ rfl r' hr')
      · contradiction
  have hlen := hclose a cs (by rw [hcs]; simp) _ h
  simp only [List.length_append, List.length_cons, List.length_nil] at hlen
  omega

/-- A comment that is read back as it is: no blank characters at its ends, and nothing in it that closes it. -/
structure IsComment (c : String) : Prop where
  trimmed : Text.trim c.toList = c.toList
  staysOpen : StaysOpen c.toList

theorem StaysOpen.padded {cs : List Char} (h : StaysOpen cs) : StaysOpen (' ' :: (cs ++ [' '])) := by
  rintro ⟨a, b, hab⟩
  cases a with
  | nil => exact absurd (List.cons.inj hab).1 (by decide)
  | cons x a =>
    have hab' : a ++ '*' :: '/' :: b = cs ++ [' '] := by simpa using (List.cons.inj hab).2
    cases b using List.reverseRecOn with
    | nil =>
      have hlast := congrArg List.getLast? hab'
      simp at hlast
    | append_singleton b y =>
      have hsplit : (a ++ '*' :: '/' :: b) ++ [y] = cs ++ [' '] := by rw [← hab']; simp
      obtain ⟨rfl, -⟩ := List.append_inj' hsplit rfl
      exact h ⟨a, b, by simp⟩

theorem IsComment.trailingComment {c : String} (h : IsComment c) (rest : List Char) :
    trailingComment (" /* ".toList ++ c.toList ++ " */".toList ++ rest) = .ok (some c, rest) := by
  have hdrop : (" /* ".toList ++ c.toList ++ " */".toList ++ rest).dropWhile Text.isGap =
      '/' :: '*' :: (' ' :: (c.toList ++ [' ']) ++ '*' :: '/' :: rest) := by
    simp [Text.isGap]
  rw [trailingComment_of_comment hdrop (h.staysOpen.padded.closeComment? rest), Text.trim_padded h.trimmed,
    String.ofList_toList]

/-! ## Scalars -/

namespace Scalar

/-- A scalar that a text can hold. -/
structure IsWritten (s : Scalar) : Prop where
  token : IsToken s.text.toList
  comment : ∀ c, s.comment = some c → IsComment c

end Scalar

/-- A scalar that was read is one that a text can hold. -/
theorem isWritten_of_scalar {cs rest : List Char} {s : Scalar} (h : scalar cs = .ok (s, rest)) : s.IsWritten := by
  obtain ⟨start, text, left, -, htoken, htext, hcomment⟩ := scalar_eq_ok h
  refine ⟨by rw [htext, String.toList_ofList]; exact isToken_of_token? htoken, fun c hc => ?_⟩
  rw [trailingComment, hc] at hcomment
  split at hcomment
  · split at hcomment
    next inside after hclose =>
      obtain ⟨hinside, -⟩ := Prod.mk.inj (Except.ok.inj hcomment)
      obtain rfl := Option.some.inj hinside
      refine ⟨by rw [String.toList_ofList, Text.trim_trim], ?_⟩
      rw [String.toList_ofList]
      exact fun hin => staysOpen_of_closeComment? hclose (hin.trans (Text.trim_infix inside))
    · contradiction
  · exact absurd (Prod.mk.inj (Except.ok.inj hcomment)).1 (by simp)

theorem isEnd_space : isEnd ' ' = true := by decide

/-- A rendered scalar starts with its token, and an end of a token follows. -/
theorem renderScalar_append (s : Scalar) (e : Char) (he : isEnd e = true) (t : List Char) :
    ∃ e' t', isEnd e' = true ∧ renderScalar s ++ e :: t = s.text.toList ++ e' :: t' := by
  cases hc : s.comment with
  | none => exact ⟨e, t, he, by simp only [renderScalar, hc]⟩
  | some c => exact ⟨' ', "/* ".toList ++ c.toList ++ " */".toList ++ e :: t, isEnd_space, by simp [renderScalar, hc]⟩

section Rendered

variable {s : Scalar} {e : Char}

theorem Scalar.IsWritten.startsSolid (hs : s.IsWritten) (he : isEnd e = true) (t : List Char) :
    StartsSolid (renderScalar s ++ e :: t) := by
  obtain ⟨e', t', he', ht⟩ := renderScalar_append s e he t
  rw [ht]
  exact hs.token.startsSolid he' t'

theorem Scalar.IsWritten.head?_ne {c : Char} (hs : s.IsWritten) (he : isEnd e = true) (hc : isMark c = true)
    (t : List Char) : (renderScalar s ++ e :: t).head? ≠ some c := by
  obtain ⟨e', t', -, ht⟩ := renderScalar_append s e he t
  rw [ht]
  exact hs.token.head?_ne hc _

/-- A written scalar is read back, if no comment follows it. -/
theorem Scalar.IsWritten.scalar_render (hs : s.IsWritten) {rest : List Char} (he : rest.head?.all isEnd = true)
    (hne : rest ≠ []) (hnone : trailingComment rest = .ok (none, rest)) :
    scalar (renderScalar s ++ rest) = .ok (s, rest) := by
  obtain ⟨e, t, rfl⟩ := List.exists_cons_of_ne_nil hne
  rw [List.head?_cons, Option.all_some] at he
  have hskip := skip_of_startsSolid (hs.startsSolid he t)
  obtain ⟨text, comment⟩ := s
  cases comment with
  | none =>
    rw [scalar_of hskip (hs.token.token?_append he t) hnone, String.ofList_toList]
  | some c =>
    have htoken : token? (renderScalar ⟨text, some c⟩ ++ e :: t) =
        some (text.toList, " /* ".toList ++ c.toList ++ " */".toList ++ e :: t) := by
      have h := hs.token.token?_append isEnd_space ("/* ".toList ++ c.toList ++ " */".toList ++ e :: t)
      simpa [renderScalar] using h
    rw [scalar_of hskip htoken ((hs.comment c rfl).trailingComment (e :: t)), String.ofList_toList]

theorem trailingComment_mark (he : isMark e = true) (t : List Char) : trailingComment (e :: t) = .ok (none, e :: t) := by
  refine trailingComment_of_none fun s hs => ?_
  rw [List.dropWhile_cons_of_neg (by simp [isGap_mark he])] at hs
  exact (mark_ne he).1 (List.cons.inj hs).1

theorem trailingComment_space (he : isMark e = true) (t : List Char) :
    trailingComment (' ' :: e :: t) = .ok (none, ' ' :: e :: t) := by
  refine trailingComment_of_none fun s hs => ?_
  rw [List.dropWhile_cons_of_pos (by decide), List.dropWhile_cons_of_neg (by simp [isGap_mark he])] at hs
  exact (mark_ne he).1 (List.cons.inj hs).1

end Rendered

end Plist
end ModuleLink
