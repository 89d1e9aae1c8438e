import ModuleLink.Proofs.Plist.Gap
import ModuleLink.Proofs.Plist.Reading

/-!
Reading does not look behind a mark.  What is read before a brace, a bracket or a separator is the same whatever follows
it, so a text can be read piece by piece.
-/

namespace ModuleLink
namespace Plist

/-- A character that ends whatever stands before it. -/
def isMark (c : Char) : Bool :=
  c == '\x7b' || c == '\x7d' || c == '(' || c == ')' || c == '=' || c == ';' || c == ','

theorem mark_cases {e : Char} (he : isMark e = true) :
    e = '\x7b' ∨ e = '\x7d' ∨ e = '(' ∨ e = ')' ∨ e = '=' ∨ e = ';' ∨ e = ',' := by
  simpa [isMark, or_assoc] using he

section Mark

variable {e : Char} {c r t u : List Char}

theorem isBlank_mark (he : isMark e = true) : Text.isBlank e = false := by
  rcases mark_cases he with rfl | rfl | rfl | rfl | rfl | rfl | rfl <;> decide

theorem isGap_mark (he : isMark e = true) : Text.isGap e = false := by
  rcases mark_cases he with rfl | rfl | rfl | rfl | rfl | rfl | rfl <;> decide

theorem isWordPart_mark (he : isMark e = true) : isWordPart e = false := by
  rcases mark_cases he with rfl | rfl | rfl | rfl | rfl | rfl | rfl <;> decide

theorem mark_ne (he : isMark e = true) : e ≠ '/' ∧ e ≠ '*' ∧ e ≠ '"' := by
  rcases mark_cases he with rfl | rfl | rfl | rfl | rfl | rfl | rfl <;> decide

/-! ## Gaps -/

/-- Something other than a blank or a comment stands first. -/
def StartsSolid (cs : List Char) : Prop :=
  ∃ d s, cs = d :: s ∧ Text.isBlank d = false ∧ (d = '/' → s.head? ≠ some '/' ∧ s.head? ≠ some '*')

theorem skip_of_startsSolid {cs : List Char} (h : StartsSolid cs) : skip cs = .ok cs := by
  obtain ⟨d, s, rfl, hblank, hslash⟩ := h
  rw [skip.eq_def, List.dropWhile_cons_of_neg (by simp [hblank])]
  split
  next rest hcs =>
    obtain ⟨rfl, rfl⟩ := List.cons.inj hcs
    exact absurd rfl (hslash rfl).2
  next rest hcs =>
    obtain ⟨rfl, rfl⟩ := List.cons.inj hcs
    exact absurd rfl (hslash rfl).1
  · rfl

theorem startsSolid_of_skip {cs rest : List Char} (h : skip cs = .ok rest) (hne : rest ≠ []) : StartsSolid rest := by
  fun_induction skip cs with
  | case1 _ _ _ _ _ _ ih => exact ih h
  | case2 => contradiction
  | case3 _ _ _ ih => exact ih h
  | case4 cs hcomment hline =>
    obtain rfl := Except.ok.inj h
    cases hs : cs.dropWhile Text.isBlank with
    | nil => exact absurd hs hne
    | cons d s =>
      have hd := List.head?_dropWhile_not Text.isBlank cs
      rw [hs] at hd
      refine ⟨d, s, rfl, by simpa using hd, ?_⟩
      rintro rfl
      constructor <;> (intro hhead; obtain ⟨s', rfl⟩ := List.head?_eq_some_iff.mp hhead)
      · exact hline s' hs
      · exact hcomment s' hs

theorem startsSolid_mark (he : isMark e = true) (t : List Char) : StartsSolid (e :: t) :=
  ⟨e, t, rfl, isBlank_mark he, fun h => absurd h (mark_ne he).1⟩

/-- Whether something starts is decided before a mark. -/
theorem StartsSolid.congr (he : isMark e = true) (h : StartsSolid (r ++ e :: t)) (u : List Char) :
    StartsSolid (r ++ e :: u) := by
  obtain ⟨d, s, hr, hblank, hslash⟩ := h
  cases r with
  | nil => exact startsSolid_mark he u
  | cons x r =>
    obtain ⟨rfl, hs⟩ := List.cons.inj hr
    refine ⟨x, r ++ e :: u, rfl, hblank, fun hx => ?_⟩
    have hhead : (r ++ e :: u).head? = s.head? := by
      rw [← hs]
      cases r <;> rfl
    rw [hhead]
    exact hslash hx

theorem skip_congr (he : isMark e = true) (h : skip (c ++ e :: t) = .ok (r ++ e :: t)) (u : List Char) :
    skip (c ++ e :: u) = .ok (r ++ e :: u) := by
  obtain ⟨g, hg, hc⟩ := exists_gap_of_skip h (by simp)
  rw [← List.append_assoc] at hc
  obtain rfl := List.append_cancel_right hc
  rw [List.append_assoc, hg.skip_append]
  exact skip_of_startsSolid ((startsSolid_of_skip h (by simp)).congr he u)

theorem expect_congr {d : Char} (he : isMark e = true) (h : expect d (c ++ e :: t) = .ok (r ++ e :: t)) (u : List Char) :
    expect d (c ++ e :: u) = .ok (r ++ e :: u) :=
  expect_of_skip (skip_congr (r := d :: r) he (expect_eq_ok h) u)

/-- A mark that is expected is found whatever follows it. -/
theorem expect_mark_congr (he : isMark e = true) (h : expect e (c ++ e :: t) = .ok t) (u : List Char) :
    expect e (c ++ e :: u) = .ok u :=
  expect_of_skip (skip_congr (r := []) he (expect_eq_ok h) u)

/-! ## Scalars -/

theorem quotedTail?_cons {d : Char} (hquote : d ≠ '"') (hslash : d ≠ '\\') (cs : List Char) :
    quotedTail? (d :: cs) = (quotedTail? cs).map fun r => (d :: r.1, r.2) := by
  rw [quotedTail?] <;> simp [hquote, hslash]

theorem quotedTail?_congr {text x : List Char} (h : quotedTail? (text ++ x) = some (text, x)) (y : List Char) :
    quotedTail? (text ++ y) = some (text, y) := by
  generalize hz : text ++ x = z at h
  fun_induction quotedTail? z generalizing text with
  | case1 => contradiction
  | case2 after =>
    obtain ⟨rfl, rfl⟩ := Prod.mk.inj (Option.some.inj h)
    rfl
  | case3 d after ih =>
    obtain ⟨⟨text', x'⟩, hr, hpair⟩ := Option.map_eq_some_iff.mp h
    obtain ⟨rfl, rfl⟩ := Prod.mk.inj hpair
    simp only [List.cons_append, List.cons.injEq, true_and] at hz
    simp only [List.cons_append, quotedTail?, ih hz hr, Option.map_some]
  | case4 => contradiction
  | case5 d after hquote hescape hend ih =>
    obtain ⟨⟨text', x'⟩, hr, hpair⟩ := Option.map_eq_some_iff.mp h
    obtain ⟨rfl, rfl⟩ := Prod.mk.inj hpair
    simp only [List.cons_append, List.cons.injEq, true_and] at hz
    have hslash : d ≠ '\\' := by
      rintro rfl
      cases after with
      | nil => exact hend rfl rfl
      | cons c rest => exact hescape c rest rfl rfl
    rw [List.cons_append, quotedTail?_cons hquote hslash, ih hz hr]
    rfl

theorem word_slash {d : Char} (h : d ≠ '/' ∧ d ≠ '*') (cs : List Char) :
    word ('/' :: d :: cs) = ('/' :: (word (d :: cs)).1, (word (d :: cs)).2) := by
  rw [word.eq_def]
  split
  next heq => exact absurd heq (by simp)
  next rest heq =>
    obtain rfl := (List.cons.inj heq).2
    split
    next heq' => exact absurd (List.cons.inj heq').1 h.1
    next heq' => exact absurd (List.cons.inj heq').1 h.2
    · rfl
  next hne heq => exact absurd (List.cons.inj heq).1.symm hne

theorem word_comment {d : Char} (h : d = '/' ∨ d = '*') (cs : List Char) :
    word ('/' :: d :: cs) = ([], '/' :: d :: cs) := by
  rcases h with rfl | rfl <;> rfl

theorem word_part {d : Char} (hd : isWordPart d = true) (cs : List Char) :
    word (d :: cs) = (d :: (word cs).1, (word cs).2) := by
  rw [word.eq_def]
  split
  next heq => exact absurd heq (by simp)
  next rest heq =>
    obtain ⟨rfl, -⟩ := List.cons.inj heq
    exact absurd hd (by decide)
  next heq =>
    obtain ⟨rfl, rfl⟩ := List.cons.inj heq
    rw [if_pos hd]

theorem word_of_not_part {d : Char} (hd : isWordPart d = false) (hslash : d ≠ '/') (cs : List Char) :
    word (d :: cs) = ([], d :: cs) := by
  rw [word.eq_def]
  split
  next heq => exact absurd heq (by simp)
  next heq => exact absurd (List.cons.inj heq).1 hslash
  next heq =>
    obtain ⟨rfl, rfl⟩ := List.cons.inj heq
    rw [if_neg (by simp [hd])]

theorem word_mark (he : isMark e = true) (t : List Char) : word (e :: t) = ([], e :: t) :=
  word_of_not_part (isWordPart_mark he) (mark_ne he).1 t

/-- A word that ends before a mark is decided before it. -/
theorem word_congr {text : List Char} (he : isMark e = true) (h : word (c ++ e :: t) = (text, r ++ e :: t))
    (u : List Char) : word (c ++ e :: u) = (text, r ++ e :: u) := by
  induction c generalizing text with
  | nil =>
    rw [List.nil_append, word_mark he] at h
    obtain ⟨rfl, hr⟩ := Prod.mk.inj h
    obtain rfl : r = [] := by simpa using hr
    exact word_mark he u
  | cons d c ih =>
    have hstop : d :: (c ++ e :: t) = r ++ e :: t → d :: (c ++ e :: u) = r ++ e :: u := by
      intro hr
      rw [← List.cons_append] at hr
      rw [← List.append_cancel_right hr]
      rfl
    rw [List.cons_append] at h ⊢
    by_cases hpart : isWordPart d = true
    · rw [word_part hpart] at h ⊢
      obtain ⟨rfl, hr⟩ := Prod.mk.inj h
      rw [ih (Prod.ext rfl hr)]
    · by_cases hslash : d = '/'
      · -- The character behind a slash is there before the mark, or it is the mark.
        subst hslash
        obtain ⟨x, s, s', hs, hs'⟩ : ∃ x s s', c ++ e :: t = x :: s ∧ c ++ e :: u = x :: s' := by
          cases c with
          | nil => exact ⟨e, t, u, rfl, rfl⟩
          | cons x c => exact ⟨x, _, _, rfl, rfl⟩
        by_cases hopen : x ≠ '/' ∧ x ≠ '*'
        · rw [hs, word_slash hopen, ← hs] at h
          rw [hs', word_slash hopen, ← hs']
          obtain ⟨rfl, hr⟩ := Prod.mk.inj h
          rw [ih (Prod.ext rfl hr)]
        · have hcomment : x = '/' ∨ x = '*' := by
            rw [not_and_or, not_not, not_not] at hopen
            exact hopen
          rw [hs, word_comment hcomment, ← hs] at h
          rw [hs', word_comment hcomment, ← hs']
          obtain ⟨rfl, hr⟩ := Prod.mk.inj h
          rw [hstop hr]
      · rw [word_of_not_part (by simpa using hpart) hslash] at h ⊢
        obtain ⟨rfl, hr⟩ := Prod.mk.inj h
        rw [hstop hr]

theorem token?_quote (cs : List Char) : token? ('"' :: cs) = (quotedTail? cs).map fun r => ('"' :: r.1, r.2) := rfl

theorem token?_of_ne {d : Char} (hd : d ≠ '"') (cs : List Char) :
    token? (d :: cs) = if (word (d :: cs)).1 = [] then none else some (word (d :: cs)) := by
  rw [token?.eq_def]
  split
  next heq => exact absurd (List.cons.inj heq).1 hd
  · split
    next hword => rw [hword, if_pos rfl]
    next hne =>
      rw [if_neg]
      intro hnil
      exact hne (word (d :: cs)).2 (Prod.ext hnil rfl)

theorem token?_congr {text : List Char} (he : isMark e = true) (h : token? (c ++ e :: t) = some (text, r ++ e :: t))
    (u : List Char) : token? (c ++ e :: u) = some (text, r ++ e :: u) := by
  cases c with
  | nil =>
    rw [List.nil_append, token?_of_ne (mark_ne he).2.2, word_mark he] at h
    contradiction
  | cons d c =>
    rw [List.cons_append] at h ⊢
    by_cases hd : d = '"'
    · subst hd
      rw [token?_quote] at h ⊢
      obtain ⟨⟨text', left⟩, htail, hpair⟩ := Option.map_eq_some_iff.mp h
      obtain ⟨rfl, rfl⟩ := Prod.mk.inj hpair
      have hsplit := quotedTail?_suffix htail
      rw [← List.append_assoc] at hsplit
      obtain rfl := List.append_cancel_right hsplit
      rw [List.append_assoc] at htail ⊢
      rw [quotedTail?_congr htail]
      rfl
    · rw [token?_of_ne hd] at h ⊢
      split at h
      · contradiction
      next hne =>
        have hword := word_congr (c := d :: c) he (Option.some.inj h) u
        have htext := congrArg Prod.fst (Option.some.inj h)
        rw [List.cons_append] at hword
        rw [hword, if_neg]
        rw [← htext]
        exact hne

theorem dropWhile_append_mark {p : Char → Bool} (hp : p e = false) (c t : List Char) :
    (c ++ e :: t).dropWhile p = c.dropWhile p ++ e :: t := by
  induction c with
  | nil => simp [hp]
  | cons d c ih =>
    by_cases hd : p d = true
    · rw [List.cons_append, List.dropWhile_cons_of_pos hd, List.dropWhile_cons_of_pos hd, ih]
    · rw [List.cons_append, List.dropWhile_cons_of_neg hd, List.dropWhile_cons_of_neg hd, List.cons_append]

theorem trailingComment_of_comment {cs s inside after : List Char} (h : cs.dropWhile Text.isGap = '/' :: '*' :: s)
    (hclose : closeComment? s = some (inside, after)) :
    trailingComment cs = .ok (some (String.ofList (Text.trim inside)), after) := by
  rw [trailingComment, h]
  simp only [hclose]

theorem trailingComment_of_none {cs : List Char} (h : ∀ s, cs.dropWhile Text.isGap ≠ '/' :: '*' :: s) :
    trailingComment cs = .ok (none, cs) := by
  rw [trailingComment]
  split
  next s hs => exact absurd hs (h s)
  · rfl

theorem trailingComment_congr {comment : Option String} (he : isMark e = true)
    (h : trailingComment (c ++ e :: t) = .ok (comment, r ++ e :: t)) (u : List Char) :
    trailingComment (c ++ e :: u) = .ok (comment, r ++ e :: u) := by
  have hdrop := dropWhile_append_mark (p := Text.isGap) (isGap_mark he) c
  by_cases hcomment : ∃ s, c.dropWhile Text.isGap = '/' :: '*' :: s
  · obtain ⟨s, hs⟩ := hcomment
    have ht : (c ++ e :: t).dropWhile Text.isGap = '/' :: '*' :: (s ++ e :: t) := by rw [hdrop, hs]; rfl
    have hu : (c ++ e :: u).dropWhile Text.isGap = '/' :: '*' :: (s ++ e :: u) := by rw [hdrop, hs]; rfl
    cases hclose : closeComment? (s ++ e :: t) with
    | none =>
      rw [trailingComment, ht] at h
      simp only [hclose] at h
      contradiction
    | some found =>
      obtain ⟨inside, after⟩ := found
      rw [trailingComment_of_comment ht hclose] at h
      obtain ⟨rfl, rfl⟩ := Prod.mk.inj (Except.ok.inj h)
      have hsplit : s ++ e :: t = inside ++ '*' :: '/' :: r ++ e :: t := by rw [closeComment?_suffix hclose]; simp
      obtain rfl := List.append_cancel_right hsplit
      rw [List.append_assoc, List.cons_append, List.cons_append] at hclose hu
      exact trailingComment_of_comment hu (closeComment?_congr hclose (r ++ e :: u))
  · have hnone (v : List Char) : ∀ s, (c ++ e :: v).dropWhile Text.isGap ≠ '/' :: '*' :: s := by
      intro s hs
      rw [hdrop] at hs
      cases hc : c.dropWhile Text.isGap with
      | nil =>
        rw [hc] at hs
        exact (mark_ne he).1 (List.cons.inj hs).1
      | cons x c' =>
        rw [hc] at hs
        obtain ⟨rfl, hs'⟩ := List.cons.inj hs
        cases c' with
        | nil => exact (mark_ne he).2.1 (List.cons.inj hs').1
        | cons y c' =>
          obtain ⟨rfl, -⟩ := List.cons.inj hs'
          exact hcomment ⟨c', hc⟩
    rw [trailingComment_of_none (hnone t)] at h
    obtain ⟨rfl, hr⟩ := Prod.mk.inj (Except.ok.inj h)
    rw [trailingComment_of_none (hnone u), List.append_cancel_right hr]

/-- What is left before a mark is left of something that ends with the mark. -/
theorem exists_append_of_suffix {w s : List Char} (h : r ++ w <:+ s) : ∃ s', s = s' ++ w := by
  obtain ⟨x, rfl⟩ := h
  exact ⟨x ++ r, (List.append_assoc ..).symm⟩

theorem scalar_of {cs start text left rest : List Char} {comment : Option String} (hskip : skip cs = .ok start)
    (htoken : token? start = some (text, left)) (hcomment : trailingComment left = .ok (comment, rest)) :
    scalar cs = .ok (⟨String.ofList text, comment⟩, rest) := by
  rw [scalar, bind_of_ok hskip]
  simp only [htoken]
  rw [bind_of_ok hcomment]

theorem scalar_congr {s : Scalar} (he : isMark e = true) (h : scalar (c ++ e :: t) = .ok (s, r ++ e :: t))
    (u : List Char) : scalar (c ++ e :: u) = .ok (s, r ++ e :: u) := by
  obtain ⟨start, text, left, hskip, htoken, hs, hcomment⟩ := scalar_eq_ok h
  obtain ⟨left', rfl⟩ := exists_append_of_suffix (trailingComment_suffix hcomment)
  obtain ⟨start', rfl⟩ : ∃ s', start = s' ++ e :: t :=
    exists_append_of_suffix (r := text ++ left') ⟨[], by rw [(token?_suffix htoken).1]; simp⟩
  have hscalar := scalar_of (skip_congr he hskip u) (token?_congr he htoken u) (trailingComment_congr he hcomment u)
  rw [hscalar]
  cases s
  simp only at hs
  rw [hs]

/-! ## Values -/

namespace Found

/-- Two findings are the same, wherever in a text they were made. -/
def Same : Found → Found → Prop
  | .value v, .value w => v = w
  | .items vs, .items ws => vs = ws
  | .members ms, .members ns => ms.map (fun m => (m.key, m.value)) = ns.map fun m => (m.key, m.value)
  | _, _ => False

theorem Same.refl (f : Found) : f.Same f := by
  cases f <;> exact rfl

theorem Same.eq_value {v : Value} {f : Found} (h : Same (.value v) f) : f = .value v := by
  cases f with
  | value w => exact congrArg _ (Eq.symm h)
  | items | members => exact h.elim

theorem Same.eq_items {vs : List Value} {f : Found} (h : Same (.items vs) f) : f = .items vs := by
  cases f with
  | items ws => exact congrArg _ (Eq.symm h)
  | value | members => exact h.elim

theorem Same.eq_members {ms : List Member} {f : Found} (h : Same (.members ms) f) :
    ∃ ns, f = .members ns ∧ ms.map (fun m => (m.key, m.value)) = ns.map fun m => (m.key, m.value) := by
  cases f with
  | members ns => exact ⟨ns, rfl, h⟩
  | value | items => exact h.elim

end Found

theorem ofMembers_congr {ms ns : List Member}
    (h : ms.map (fun m => (m.key, m.value)) = ns.map fun m => (m.key, m.value)) :
    Dict.ofMembers ms = Dict.ofMembers ns := by
  have hfold (l : List Member) : Dict.ofMembers l =
      (l.map fun m => (m.key, m.value)).foldl (fun (d : Dict Value) e => d.read e.1 e.2) {} := by
    rw [Dict.ofMembers, List.foldl_map]
  rw [hfold, hfold, h]

theorem head?_append_mark (c t u : List Char) : (c ++ e :: t).head? = (c ++ e :: u).head? := by
  cases c <;> rfl

/-- What is read before a mark is read before it whatever follows the mark. -/
theorem Reads.congr {f : Found} {cs rest : List Char} (h : Reads f cs rest) (he : isMark e = true)
    (hcs : cs = c ++ e :: t) (hrest : rest = r ++ e :: t) (u : List Char) :
    ∃ f', f.Same f' ∧ Reads f' (c ++ e :: u) (r ++ e :: u) := by
  induction h generalizing c r with
  | dict hskip hms ih =>
    subst hcs hrest
    obtain ⟨after, rfl⟩ := exists_append_of_suffix hms.suffix
    obtain ⟨f', hsame, hreads⟩ := ih rfl rfl
    obtain ⟨ns, rfl, hns⟩ := hsame.eq_members
    rw [ofMembers_congr hns]
    exact ⟨_, .refl _, .dict (skip_congr (r := '\x7b' :: after) he hskip u) hreads⟩
  | list hskip hvs ih =>
    subst hcs hrest
    obtain ⟨after, rfl⟩ := exists_append_of_suffix hvs.suffix
    obtain ⟨f', hsame, hreads⟩ := ih rfl rfl
    rw [hsame.eq_items] at hreads
    exact ⟨_, .refl _, .list (skip_congr (r := '(' :: after) he hskip u) hreads⟩
  | scalar hskip hbrace hparen hscalar =>
    subst hcs hrest
    obtain ⟨start, rfl⟩ := exists_append_of_suffix (scalar_suffix hscalar)
    rw [head?_append_mark start t u] at hbrace hparen
    exact ⟨_, .refl _, .scalar (skip_congr he hskip u) hbrace hparen (scalar_congr he hscalar u)⟩
  | noItem hskip =>
    subst hcs hrest
    exact ⟨_, .refl _, .noItem (skip_congr (r := ')' :: r) he hskip u)⟩
  | lastItem hskip _ hparen hvalue hend ihv =>
    subst hcs hrest
    obtain ⟨left, rfl⟩ := exists_append_of_suffix (r := ')' :: r) (skip_suffix hend)
    obtain ⟨start, rfl⟩ := exists_append_of_suffix hvalue.suffix
    obtain ⟨f', hsame, hreads⟩ := ihv rfl rfl
    rw [hsame.eq_value] at hreads
    rw [head?_append_mark start t u] at hparen
    exact ⟨_, .refl _, .lastItem (skip_congr he hskip u) (by simp) hparen hreads (skip_congr (r := ')' :: r) he hend u)⟩
  | item hskip _ hparen hvalue hcomma hvs ihv ih =>
    subst hcs hrest
    obtain ⟨after, rfl⟩ := exists_append_of_suffix hvs.suffix
    obtain ⟨left, rfl⟩ := exists_append_of_suffix (r := ',' :: after) (skip_suffix hcomma)
    obtain ⟨start, rfl⟩ := exists_append_of_suffix hvalue.suffix
    obtain ⟨f', hsame, hreads⟩ := ihv rfl rfl
    obtain ⟨f'', hsame', hreads'⟩ := ih rfl rfl
    rw [hsame.eq_value] at hreads
    rw [hsame'.eq_items] at hreads'
    rw [head?_append_mark start t u] at hparen
    exact ⟨_, .refl _, .item (skip_congr he hskip u) (by simp) hparen hreads
      (skip_congr (r := ',' :: after) he hcomma u) hreads'⟩
  | noMember hskip =>
    subst hcs hrest
    exact ⟨_, .refl _, .noMember (skip_congr (r := '\x7d' :: r) he hskip u)⟩
  | member hskip _ hbrace hkey hequals hvalue hend hms ihv ih =>
    subst hcs hrest
    obtain ⟨closed, rfl⟩ := exists_append_of_suffix hms.suffix
    obtain ⟨after, rfl⟩ := exists_append_of_suffix (r := ';' :: closed) (expect_suffix hend)
    obtain ⟨body, rfl⟩ := exists_append_of_suffix hvalue.suffix
    obtain ⟨left, rfl⟩ := exists_append_of_suffix (r := '=' :: body) (expect_suffix hequals)
    obtain ⟨start, rfl⟩ := exists_append_of_suffix (scalar_suffix hkey)
    obtain ⟨f', hsame, hreads⟩ := ihv rfl rfl
    obtain ⟨f'', hsame', hreads'⟩ := ih rfl rfl
    rw [hsame.eq_value] at hreads
    obtain ⟨ns, rfl, hns⟩ := hsame'.eq_members
    rw [head?_append_mark start t u] at hbrace
    refine ⟨_, ?_, .member (skip_congr he hskip u) (by simp) hbrace (scalar_congr he hkey u)
      (expect_congr he hequals u) hreads (expect_congr he hend u) hreads'⟩
    simp only [Found.Same, List.map_cons, hns]

end Mark

end Plist
end ModuleLink
