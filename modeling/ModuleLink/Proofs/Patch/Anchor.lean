import Mathlib.Data.List.Basic
import ModuleLink.Patch.Basic
import ModuleLink.Proofs.Text.Search

/-!
What an anchor takes from a text.  It takes the same piece whatever follows the piece, and one of its pieces never
stands inside another one with something behind it.  So a text that is put behind the first place of an anchor leaves
that place the first.
-/

namespace ModuleLink
namespace Patch

/-! ## Readers that do not look ahead -/

/-- The reader takes a piece with property `P` off the front, and takes the same piece whatever follows. -/
def Takes (k : List Char → Option (List Char)) (P : List Char → Prop) : Prop :=
  ∀ cs r, k cs = some r → ∃ x, cs = x ++ r ∧ P x ∧ ∀ r', k (x ++ r') = some r'

theorem Takes.mono {k : List Char → Option (List Char)} {P Q : List Char → Prop} (h : Takes k P)
    (hPQ : ∀ x, P x → Q x) : Takes k Q := by
  intro cs r hk
  obtain ⟨x, hx, hP, hr⟩ := h cs r hk
  exact ⟨x, hx, hPQ x hP, hr⟩

theorem Takes.bind {k l : List Char → Option (List Char)} {P Q : List Char → Prop}
    (hk : Takes k P) (hl : Takes l Q) :
    Takes (fun cs => k cs >>= l) fun x => ∃ a b, x = a ++ b ∧ P a ∧ Q b := by
  intro cs r h
  obtain ⟨s, hs, hr⟩ := Option.bind_eq_some_iff.mp h
  obtain ⟨a, rfl, hP, ha⟩ := hk cs s hs
  obtain ⟨b, rfl, hQ, hb⟩ := hl s r hr
  refine ⟨a ++ b, by simp, ⟨a, b, rfl, hP, hQ⟩, fun r' => ?_⟩
  rw [List.append_assoc]
  exact Option.bind_eq_some_iff.mpr ⟨_, ha _, hb _⟩

theorem takes_after? (p : List Char) : Takes (Text.after? p) (· = p) := by
  intro cs r h
  exact ⟨p, Text.after?_eq_some_iff.mp h, rfl, Text.after?_append p⟩

theorem skipGaps_append {g x : List Char} (hg : ∀ c ∈ g, Text.isGap c = true)
    (hx : ∃ c t, x = c :: t ∧ Text.isGap c = false) (r : List Char) :
    skipGaps (g ++ x ++ r) = x ++ r := by
  obtain ⟨c, t, rfl, hc⟩ := hx
  rw [skipGaps, List.append_assoc, List.dropWhile_append_of_pos hg]
  simp [hc]

/-- Gaps are skipped as far as they go.  What is taken behind them is not empty, so the text that follows has no say in
where they end. -/
theorem Takes.skipGaps {k : List Char → Option (List Char)} {P : List Char → Prop} (hk : Takes k P)
    (hne : ∀ x, P x → x ≠ []) :
    Takes (fun cs => k (skipGaps cs))
      fun x => ∃ g y, x = g ++ y ∧ (∀ c ∈ g, Text.isGap c = true) ∧ P y := by
  intro cs r h
  obtain ⟨y, hy, hP, hr⟩ := hk _ r h
  have hsplit : cs = cs.takeWhile Text.isGap ++ (y ++ r) := by
    rw [← hy, Patch.skipGaps, List.takeWhile_append_dropWhile]
  have hgap : ∀ c ∈ cs.takeWhile Text.isGap, Text.isGap c = true := fun c hc => by
    simpa using List.all_eq_true.mp List.all_takeWhile c hc
  have hhead : ∃ c t, y = c :: t ∧ Text.isGap c = false := by
    cases y with
    | nil => exact absurd rfl (hne [] hP)
    | cons c t =>
      have := List.head?_dropWhile_not Text.isGap cs
      rw [show cs.dropWhile Text.isGap = c :: t ++ r from hy] at this
      exact ⟨c, t, rfl, by simpa using this⟩
  refine ⟨_ ++ y, by rw [List.append_assoc]; exact hsplit, ⟨_, y, rfl, hgap, hP⟩, fun r' => ?_⟩
  show k (Patch.skipGaps _) = _
  rw [skipGaps_append hgap hhead]
  exact hr r'

theorem Takes.optional {k : List Char → Option (List Char)} {P : List Char → Prop} (c : Char)
    (hk : Takes k P) (hne : ∀ x, P x → x ≠ []) :
    Takes (fun cs => k (optional c cs)) fun x => P x ∨ ∃ y, x = c :: y ∧ P y := by
  intro cs r h
  obtain ⟨y, hy, hP, hr⟩ := hk _ r h
  cases cs with
  | nil =>
    have hnil : y ++ r = [] := by rw [← hy]; rfl
    exact absurd (List.append_eq_nil_iff.mp hnil).1 (hne y hP)
  | cons d cs =>
    by_cases hd : d = c
    · subst hd
      have hcs : cs = y ++ r := by simpa [Patch.optional] using hy
      refine ⟨d :: y, by rw [hcs]; rfl, Or.inr ⟨y, rfl, hP⟩, fun r' => ?_⟩
      simpa [Patch.optional] using hr r'
    · have hcs : d :: cs = y ++ r := by simpa [Patch.optional, hd] using hy
      refine ⟨y, hcs, Or.inl hP, fun r' => ?_⟩
      cases y with
      | nil => exact absurd rfl (hne [] hP)
      | cons e y =>
        have he : e = d := by simpa using (congrArg List.head? hcs).symm
        simpa [Patch.optional, he, hd] using hr r'

/-- At least one gap, and all that follow it. -/
theorem Takes.gaps {k : List Char → Option (List Char)} {P : List Char → Prop} (hk : Takes k P)
    (hne : ∀ x, P x → x ≠ []) :
    Takes (fun cs => gaps? cs >>= k) fun x => ∃ g y, x = g ++ y ∧ (∀ c ∈ g, Text.isGap c = true) ∧ P y := by
  intro cs r h
  cases cs with
  | nil => simp [gaps?] at h
  | cons c cs =>
    by_cases hc : Text.isGap c = true
    · obtain ⟨x, rfl, ⟨g, y, rfl, hg, hy⟩, hr⟩ := hk.skipGaps hne cs r (by simpa [gaps?, hc] using h)
      refine ⟨c :: (g ++ y), rfl, ⟨c :: g, y, rfl, ?_, hy⟩, fun r' => ?_⟩
      · rw [List.forall_mem_cons]
        exact ⟨hc, hg⟩
      · simpa [gaps?, hc] using hr r'
    · simp [gaps?, hc] at h

/-! ## Quotes -/

def IsQuote (c : Char) : Prop := c = '\'' ∨ c = '"'

instance (c : Char) : Decidable (IsQuote c) := inferInstanceAs (Decidable (_ ∨ _))

theorem quoteMark?_eq_some_iff {cs r : List Char} : quoteMark? cs = some r ↔ ∃ q, IsQuote q ∧ cs = q :: r := by
  cases cs with
  | nil => simp [quoteMark?]
  | cons c cs =>
    simp only [quoteMark?, IsQuote]
    grind

theorem quoted?_eq_some_iff {text cs r : List Char} :
    quoted? text cs = some r ↔ ∃ q q', IsQuote q ∧ IsQuote q' ∧ cs = q :: (text ++ q' :: r) := by
  simp only [quoted?, Option.bind_eq_bind, Option.bind_eq_some_iff, quoteMark?_eq_some_iff, Text.after?_eq_some_iff]
  constructor
  · rintro ⟨_, ⟨q, hq, rfl⟩, _, rfl, q', hq', rfl⟩
    exact ⟨q, q', hq, hq', rfl⟩
  · rintro ⟨q, q', hq, hq', rfl⟩
    exact ⟨_, ⟨q, hq, rfl⟩, _, rfl, q', hq', rfl⟩

/-! ## Pieces of lines -/

/-- A piece that goes on over `n` line ends, and whose last character satisfies `E`. -/
def Lines (E : Char → Prop) (n : Nat) (x : List Char) : Prop :=
  (∃ c, x.getLast? = some c ∧ E c) ∧ x.count '\n' = n

section Lines

variable {k l : List Char → Option (List Char)} {E F : Char → Prop} {m n : Nat} {x y : List Char}

theorem Lines.ne_nil (h : Lines E n x) : x ≠ [] := by
  rintro rfl
  obtain ⟨⟨c, hc, -⟩, -⟩ := h
  simp at hc

theorem Lines.append (hx : x.count '\n' = m) (hy : Lines F n y) : Lines F (m + n) (x ++ y) := by
  obtain ⟨⟨c, hc, hF⟩, hn⟩ := hy
  refine ⟨⟨c, ?_, hF⟩, by rw [List.count_append, hx, hn]⟩
  rw [List.getLast?_append, hc]
  rfl

theorem count_newline_gaps {g : List Char} (hg : ∀ c ∈ g, Text.isGap c = true) : g.count '\n' = 0 := by
  refine List.count_eq_zero.mpr fun h => ?_
  have := hg _ h
  simp [Text.isGap] at this

theorem Takes.linesBind (hk : Takes k fun x => x.count '\n' = m) (hl : Takes l (Lines F n)) :
    Takes (fun cs => k cs >>= l) (Lines F (m + n)) := by
  refine (hk.bind hl).mono ?_
  rintro x ⟨a, b, rfl, ha, hb⟩
  exact Lines.append ha hb

theorem Takes.linesSkipGaps (hk : Takes k (Lines E n)) :
    Takes (fun cs => k (Patch.skipGaps cs)) (Lines E n) := by
  refine (hk.skipGaps fun x hx => hx.ne_nil).mono ?_
  rintro x ⟨g, y, rfl, hg, hy⟩
  simpa using Lines.append (count_newline_gaps hg) hy

theorem Takes.linesOptional {c : Char} (hc : c ≠ '\n') (hk : Takes k (Lines E n)) :
    Takes (fun cs => k (Patch.optional c cs)) (Lines E n) := by
  refine (hk.optional c fun x hx => hx.ne_nil).mono ?_
  rintro x (hx | ⟨y, rfl, hy⟩)
  · exact hx
  · have h1 : [c].count '\n' = 0 := List.count_eq_zero.mpr (by simpa using hc.symm)
    simpa using Lines.append h1 hy

theorem Takes.linesGaps (hk : Takes k (Lines E n)) : Takes (fun cs => gaps? cs >>= k) (Lines E n) := by
  refine (hk.gaps fun x hx => hx.ne_nil).mono ?_
  rintro x ⟨g, y, rfl, hg, hy⟩
  simpa using Lines.append (count_newline_gaps hg) hy

theorem takes_quoteMark? : Takes quoteMark? (Lines (fun _ => True) 0) := by
  intro cs r h
  cases cs with
  | nil => simp [quoteMark?] at h
  | cons c cs =>
    by_cases hc : c = '\'' ∨ c = '"'
    · have hr : cs = r := by simpa [quoteMark?, hc] using h
      subst hr
      refine ⟨[c], rfl, ⟨⟨c, rfl, trivial⟩, ?_⟩, fun r' => by simp [quoteMark?, hc]⟩
      rcases hc with rfl | rfl <;> decide
    · simp [quoteMark?, hc] at h

theorem takes_quoted? (text : List Char) :
    Takes (quoted? text) (Lines (fun _ => True) (text.count '\n')) := by
  have htext : Takes (Text.after? text) fun x => x.count '\n' = text.count '\n' :=
    (takes_after? text).mono fun x hx => by rw [hx]
  have hmark : Takes quoteMark? fun x => x.count '\n' = 0 := takes_quoteMark?.mono fun x hx => hx.2
  have h := hmark.linesBind (htext.linesBind takes_quoteMark?)
  rw [Nat.add_zero, Nat.zero_add] at h
  exact h

/-- A line end takes gaps, and perhaps a carriage return, with it. -/
theorem takes_lineEnd? :
    Takes lineEnd? fun x => ∃ g, x = g ++ ['\n'] ∧ ∀ c ∈ g, c ≠ '\n' ∧ c ≠ '>' := by
  have hend := (((takes_after? ['\n']).optional '\r' (by simp)).skipGaps
    (by rintro x (rfl | ⟨y, rfl, -⟩) <;> simp))
  refine hend.mono ?_
  rintro x ⟨g, y, rfl, hg, hy⟩
  have hgap : ∀ c ∈ g, c ≠ '\n' ∧ c ≠ '>' := by
    intro c hc
    constructor <;> (rintro rfl; exact absurd (hg _ hc) (by decide))
  rcases hy with rfl | ⟨y, rfl, rfl⟩
  · exact ⟨g, rfl, hgap⟩
  · refine ⟨g ++ ['\r'], by simp, fun c hc => ?_⟩
    rcases List.mem_append.mp hc with hc | hc
    · exact hgap c hc
    · rw [List.mem_singleton.mp hc]
      decide

theorem takes_lineEnd?_lines : Takes lineEnd? (Lines (· = '\n') 1) := by
  refine takes_lineEnd?.mono ?_
  rintro x ⟨g, rfl, hg⟩
  have hcount : g.count '\n' = 0 := List.count_eq_zero.mpr fun h => (hg _ h).1 rfl
  have hend : Lines (· = '\n') 1 ['\n'] := ⟨⟨'\n', rfl, rfl⟩, rfl⟩
  exact Lines.append hcount hend

end Lines

/-! ## The pieces of an anchor -/

namespace Anchor

/-- What a piece of an anchor looks like: a text, whole lines, or a tag to the end of its line. -/
def Piece : Anchor → List Char → Prop
  | literal text, x => x = text.toList
  | includeLine app, x => Lines (· = '\n') (app.toList.count '\n' + 1) x
  | dependenciesLine, x => Lines (· = '\n') 1 x
  | resourcesTag, x => ∃ a g, x = a ++ '>' :: g ++ ['\n'] ∧ '>' ∉ a ∧ ∀ c ∈ g, c ≠ '\n' ∧ c ≠ '>'
  | targetLine target, x => Lines (· = '\n') (target.toList.count '\n' + 1) x

theorem takes_word (p : List Char) (hp : p.count '\n' = 0) :
    Takes (Text.after? p) fun x => x.count '\n' = 0 :=
  (takes_after? p).mono fun x hx => by rw [hx, hp]

/-- The rest of a tag whose name has just been read. -/
def tagEnd? (cs : List Char) : Option (List Char) :=
  match cs with
  | c :: _ =>
    if Text.isWord c then none
    else do
      let cs ← Text.after? ['>'] (cs.dropWhile (· != '>'))
      lineEnd? cs
  | [] => none

theorem takes_tagEnd? : Takes tagEnd? (Piece resourcesTag) := by
  intro cs r h
  cases cs with
  | nil => simp [tagEnd?] at h
  | cons c cs =>
    rw [tagEnd?] at h
    split at h
    · contradiction
    next hc =>
    obtain ⟨s, hs, hr⟩ := Option.bind_eq_some_iff.mp h
    obtain ⟨y, rfl, ⟨g, rfl, hg⟩, hy⟩ := takes_lineEnd? s r hr
    have hdrop : (c :: cs).dropWhile (· != '>') = '>' :: (g ++ ['\n'] ++ r) := Text.after?_eq_some_iff.mp hs
    have hall : ∀ d ∈ (c :: cs).takeWhile (· != '>'), (d != '>') = true := fun d hd =>
      List.all_eq_true.mp List.all_takeWhile d hd
    have hsplit : c :: cs = (c :: cs).takeWhile (· != '>') ++ '>' :: (g ++ ['\n'] ++ r) := by
      rw [← hdrop, List.takeWhile_append_dropWhile]
    generalize (c :: cs).takeWhile (· != '>') = a at hsplit hall
    have hx : c :: cs = (a ++ '>' :: g ++ ['\n']) ++ r := by rw [hsplit]; simp
    refine ⟨a ++ '>' :: g ++ ['\n'], hx, ⟨a, g, rfl, fun h => ?_, hg⟩, fun r' => ?_⟩
    · simpa using hall _ h
    · -- The first character is the one that was seen before, whatever follows.
      obtain ⟨t, ht⟩ : ∃ t, a ++ '>' :: g ++ ['\n'] = c :: t := by
        rcases List.append_eq_cons_iff.mp hx.symm with ⟨hnil, -⟩ | ⟨t, ht, -⟩
        · simp at hnil
        · exact ⟨t, ht⟩
      have hdrop' : (a ++ '>' :: g ++ ['\n'] ++ r').dropWhile (· != '>') = '>' :: (g ++ ['\n'] ++ r') := by
        rw [List.append_assoc, List.append_assoc, List.dropWhile_append_of_pos hall]
        simp
      rw [ht, List.cons_append] at hdrop' ⊢
      rw [tagEnd?, if_neg hc, hdrop']
      exact hy r'

theorem takes_rest? (a : Anchor) (fresh : Bool) : Takes (a.rest? fresh) a.Piece := by
  cases a with
  | literal text => exact takes_after? text.toList
  | includeLine app =>
    cases fresh with
    | false => intro cs r h; simp [rest?] at h
    | true =>
      have hname := ((takes_quoted? (':' :: app.toList)).linesSkipGaps.linesOptional
        (c := '(') (by decide)).linesSkipGaps
      have hend := (takes_lineEnd?_lines.linesOptional (c := ')') (by decide)).linesSkipGaps
      have h := (takes_word "include".toList (by decide)).linesBind
        ((hname.mono fun x hx => hx.2).linesBind hend)
      rw [Nat.zero_add, List.count_cons_of_ne (by decide)] at h
      exact h
  | dependenciesLine =>
    cases fresh with
    | false => intro cs r h; simp [rest?] at h
    | true =>
      have hbrace := ((takes_word ['\x7b'] (by decide)).linesBind takes_lineEnd?_lines).linesSkipGaps
      have h := (takes_word "dependencies".toList (by decide)).linesBind hbrace
      rw [Nat.zero_add, Nat.zero_add] at h
      exact h
  | resourcesTag =>
    have h := (takes_after? "<resources".toList).bind takes_tagEnd?
    refine Takes.mono (k := rest? resourcesTag fresh) h ?_
    rintro x ⟨_, y, rfl, rfl, a, g, rfl, ha, hg⟩
    refine ⟨"<resources".toList ++ a, g, by simp, fun h => ?_, hg⟩
    rcases List.mem_append.mp h with h | h
    · exact absurd h (by decide)
    · exact ha h
  | targetLine target =>
    cases fresh with
    | false => intro cs r h; simp [rest?] at h
    | true =>
      have hdo := ((takes_word "do".toList (by decide)).linesBind takes_lineEnd?_lines).linesGaps
      have hname := (((takes_quoted? target.toList).mono fun x hx => hx.2).linesBind hdo).linesGaps
      have h := ((takes_word "target".toList (by decide)).linesBind hname).linesSkipGaps
      rw [Nat.zero_add, Nat.zero_add] at h
      exact h

theorem eq_nil_of_lines_inside {E : Char → Prop} {n : Nat} {u m y : List Char}
    (h : Lines (· = '\n') n (u ++ m ++ y)) (hm : Lines E n m) : y = [] := by
  by_contra hy
  obtain ⟨⟨c, hc, rfl⟩, hn⟩ := h
  rw [List.getLast?_append_of_ne_nil _ hy] at hc
  have hpos : 0 < y.count '\n' := List.count_pos_iff.mpr (List.mem_of_getLast? hc)
  rw [List.count_append, List.count_append, hm.2] at hn
  omega

/-- A piece that stands inside another one ends where that one ends. -/
theorem eq_nil_of_piece_inside (a : Anchor) {u m y : List Char} (h : a.Piece (u ++ m ++ y))
    (hm : a.Piece m) : y = [] := by
  cases a with
  | literal text =>
    have hlen := congrArg List.length (h.trans hm.symm)
    simp only [List.length_append] at hlen
    exact List.length_eq_zero_iff.mp (by omega)
  | includeLine app => exact eq_nil_of_lines_inside h hm
  | dependenciesLine => exact eq_nil_of_lines_inside h hm
  | resourcesTag =>
    obtain ⟨a, g, hx, ha, hg⟩ := h
    obtain ⟨a', g', rfl, ha', hg'⟩ := hm
    -- A piece holds one `>` and, behind it, one line end; so both pieces share them.
    have hg_newline : '\n' ∉ g := fun h => (hg _ h).1 rfl
    have hg_tag : '>' ∉ g ++ ['\n'] := fun h => by
      rcases List.mem_append.mp h with h | h
      · exact (hg _ h).2 rfl
      · simp at h
    have htag : a ++ '>' :: (g ++ ['\n']) = (u ++ a') ++ '>' :: (g' ++ '\n' :: y) := by
      simpa using hx.symm
    obtain ⟨-, -, hline⟩ := (List.append_cons_inj_of_notMem ha hg_tag).mp htag
    exact ((List.append_cons_inj_of_notMem hg_newline (by simp)).mp hline).2.2.symm
  | targetLine target => exact eq_nil_of_lines_inside h hm

/-! ## Places -/

/-- Whether a line starts behind `u`, where `fresh` says so of its start. -/
def freshBehind (fresh : Bool) : List Char → Bool
  | [] => fresh
  | c :: u => freshBehind (c == '\n') u

/-- The text `u ++ (m ++ v)` has its first place of the anchor at `m`. -/
structure FirstPlace (a : Anchor) (fresh : Bool) (u m v : List Char) : Prop where
  here : a.rest? (freshBehind fresh u) (m ++ v) = some v
  notBefore : ∀ u₁ u₂, u = u₁ ++ u₂ → u₂ ≠ [] → a.rest? (freshBehind fresh u₁) (u₂ ++ (m ++ v)) = none

theorem placesFrom_here (a : Anchor) {m v : List Char} {fresh : Bool} (place : Nat)
    (h : a.rest? fresh (m ++ v) = some v) :
    ∃ rest, a.placesFrom place 0 fresh (m ++ v) = (place, place + m.length) :: rest := by
  have hlen : a.length? fresh (m ++ v) = some m.length := by
    rw [length?, h]
    simp
  cases hcs : m ++ v with
  | nil => exact ⟨[], by rw [placesFrom, ← hcs, hlen]⟩
  | cons c cs => exact ⟨_, by rw [placesFrom, ← hcs, hlen]⟩

theorem placesFrom_skip (a : Anchor) {c : Char} {cs : List Char} {fresh : Bool} (place : Nat)
    (h : a.rest? fresh (c :: cs) = none) :
    a.placesFrom place 0 fresh (c :: cs) = a.placesFrom (place + 1) 0 (c == '\n') cs := by
  rw [placesFrom, length?, h]
  rfl

theorem placesFrom_of_firstPlace (a : Anchor) {u m v : List Char} {fresh : Bool} (place : Nat)
    (h : a.FirstPlace fresh u m v) :
    ∃ rest, a.placesFrom place 0 fresh (u ++ (m ++ v)) =
      (place + u.length, place + u.length + m.length) :: rest := by
  induction u generalizing fresh place with
  | nil => exact a.placesFrom_here place h.here
  | cons c u ih =>
    have hnone : a.rest? fresh (c :: (u ++ (m ++ v))) = none := h.notBefore [] (c :: u) rfl (by simp)
    have htail : a.FirstPlace (c == '\n') u m v :=
      ⟨h.here, fun u₁ u₂ e hne => h.notBefore (c :: u₁) u₂ (by rw [e]; rfl) hne⟩
    obtain ⟨rest, hrest⟩ := ih (place + 1) htail
    refine ⟨rest, ?_⟩
    rw [List.cons_append, a.placesFrom_skip place hnone, hrest, List.length_cons]
    simp only [List.cons.injEq, Prod.mk.injEq, and_true]
    omega

theorem placesFrom_eq_cons (a : Anchor) {cs : List Char} {place s e : Nat} {fresh : Bool}
    {rest : List (Nat × Nat)} (h : a.placesFrom place 0 fresh cs = (s, e) :: rest) :
    ∃ u m v, cs = u ++ (m ++ v) ∧ s = place + u.length ∧ e = s + m.length ∧ a.FirstPlace fresh u m v := by
  cases hr : a.rest? fresh cs with
  | some v =>
    obtain ⟨m, rfl, -, -⟩ := a.takes_rest? fresh cs v hr
    obtain ⟨rest', h'⟩ := a.placesFrom_here place hr
    rw [h'] at h
    simp only [List.cons.injEq, Prod.mk.injEq] at h
    obtain ⟨⟨rfl, rfl⟩, -⟩ := h
    exact ⟨[], m, v, rfl, rfl, rfl, hr, fun u₁ u₂ he hne => absurd (List.append_eq_nil_iff.mp he.symm).2 hne⟩
  | none =>
    cases cs with
    | nil =>
      rw [placesFrom, length?, hr] at h
      contradiction
    | cons c cs =>
      rw [a.placesFrom_skip place hr] at h
      obtain ⟨u, m, v, rfl, rfl, rfl, hfirst⟩ := placesFrom_eq_cons a h
      refine ⟨c :: u, m, v, rfl, by rw [List.length_cons]; omega, rfl, hfirst.here, fun u₁ u₂ he hne => ?_⟩
      rcases List.append_eq_cons_iff.mp he.symm with ⟨rfl, hu₂⟩ | ⟨w, rfl, hu⟩
      · rw [hu₂]
        exact hr
      · exact hfirst.notBefore w u₂ hu hne

/-- A text put behind the first place leaves it the first place. -/
theorem FirstPlace.insert {a : Anchor} {fresh : Bool} {u m v : List Char} (h : a.FirstPlace fresh u m v)
    (text : List Char) : a.FirstPlace fresh u m (text ++ v) := by
  obtain ⟨x, hx, hm, hlocal⟩ := a.takes_rest? _ _ _ h.here
  obtain rfl : m = x := List.append_cancel_right hx
  refine ⟨hlocal _, fun u₁ u₂ he hne => ?_⟩
  by_contra hsome
  obtain ⟨r, hr⟩ := Option.ne_none_iff_exists'.mp hsome
  obtain ⟨y, hy, hpiece, hylocal⟩ := a.takes_rest? _ _ _ hr
  have hnone := h.notBefore u₁ u₂ he hne
  rw [← List.append_assoc] at hy hnone
  rcases List.append_eq_append_iff.mp hy with ⟨z, rfl, -⟩ | ⟨z, hz, -⟩
  · -- An earlier piece cannot reach behind the place, so it would have been there before.
    obtain rfl := a.eq_nil_of_piece_inside hpiece hm
    rw [List.append_nil] at hylocal
    rw [hylocal v] at hnone
    contradiction
  · rw [hz, List.append_assoc, hylocal] at hnone
    contradiction

/-- A text put behind the first place of an anchor leaves it the first place. -/
theorem places_insert (a : Anchor) {content : List Char} {s e : Nat} {rest : List (Nat × Nat)}
    (h : a.places content = (s, e) :: rest) (text : List Char) :
    ∃ rest', a.places (content.take e ++ text ++ content.drop e) = (s, e) :: rest' := by
  obtain ⟨u, m, v, rfl, hs, he, hfirst⟩ := a.placesFrom_eq_cons h
  obtain ⟨rest', h'⟩ := a.placesFrom_of_firstPlace 0 (hfirst.insert text)
  have hlen : e = (u ++ m).length := by rw [List.length_append, he, hs]; omega
  rw [← List.append_assoc u, hlen, List.take_left, List.drop_left]
  refine ⟨rest', ?_⟩
  rw [places, List.append_assoc, List.append_assoc, h', hs, List.length_append, Nat.zero_add]

end Anchor
end Patch
end ModuleLink
