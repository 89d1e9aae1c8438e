import ModuleLink.Proofs.Xcode.Edits

/-!
The object table of any text, row by row.  A row is one entry with what stands in front of it; if nothing but blank
characters shares the lines of the entry, these lines are its span, and else the entry is.
-/

namespace ModuleLink
namespace Xcode

open Plist Text

/-- An entry of a table, the blank characters on its lines if they belong to its span, and what stands in front. -/
structure Row where
  lead : List Char
  indent : List Char
  entry : List Char
  tail : List Char
  key : Scalar
  value : Value
  wholeLine : Bool
  inline : Bool
  gap : Gap (lead ++ indent)
  indent_blank : ∀ c ∈ indent, isBlank c = true
  tail_gap : Gap tail
  isEntry : IsEntry entry key value
  entry_ne : entry ≠ []

namespace Row

/-- What the span of the entry holds. -/
def lines (r : Row) : List Char := r.indent ++ r.entry ++ r.tail

def text (r : Row) : List Char := r.lead ++ r.lines

def pair (r : Row) : Scalar × Value := (r.key, r.value)

/-- The span of the entry of a row that starts at `n`. -/
def spanAt (r : Row) (n : Nat) : Span :=
  ⟨n + r.lead.length, n + r.lead.length + r.lines.length, r.indent, r.wholeLine, r.inline⟩

theorem lines_ne (r : Row) : r.lines ≠ [] := by
  simp [lines, r.entry_ne]

theorem carries (r : Row) : Carries r.text [r.pair] := by
  have h := ((carries_gap r.gap).append r.isEntry.carries).append (carries_gap r.tail_gap)
  simpa only [text, lines, pair, List.append_assoc, List.nil_append, List.append_nil] using h

end Row

/-- The text of rows that follow each other. -/
def textOfRows (rows : List Row) : List Char := rows.flatMap Row.text

/-- The spans of rows, the first of which starts at `n`. -/
def spansFrom : (n : Nat) → List Row → List Span
  | _, [] => []
  | n, r :: rows => r.spanAt n :: spansFrom (n + r.text.length) rows

section Rows

variable {pre cs post g left : List Char} {m : Member} {ms : List Member}

/-! ## Lines -/

/-- The text ends with a line, or with something that is not blank. -/
def EndsSolid (cs : List Char) : Prop := ∃ a c, cs = a ++ [c] ∧ (c = '\n' ∨ isBlank c = false)

theorem endsSolid_brace (cs : List Char) : EndsSolid (cs ++ ['\x7b']) := ⟨cs, '\x7b', rfl, .inr (by decide)⟩

theorem lineBefore_append (a left : List Char) :
    lineBefore (a ++ left) left = (a.reverse.takeWhile (· != '\n')).reverse := by
  rw [lineBefore, take_sub_length]

/-- Blank characters in front of an entry on its line stand in the gap in front of it. -/
theorem exists_lead (hpre : EndsSolid pre) (hblank : ∀ c ∈ lineBefore (pre ++ g ++ left) left, isBlank c = true) :
    ∃ lead, g = lead ++ lineBefore (pre ++ g ++ left) left := by
  rw [lineBefore_append] at hblank ⊢
  generalize hline : ((pre ++ g).reverse.takeWhile (· != '\n')).reverse = line at hblank
  have hsuffix : line <:+ pre ++ g := by
    rw [← hline, ← List.reverse_prefix, List.reverse_reverse]
    exact List.takeWhile_prefix _
  have hnewline : '\n' ∉ line := by
    rw [← hline, List.mem_reverse]
    exact fun hin => absurd (List.mem_takeWhile_imp hin) (by decide)
  rcases List.suffix_or_suffix_of_suffix hsuffix (List.suffix_append pre g) with ⟨lead, hlead⟩ | ⟨y, rfl⟩
  · exact ⟨lead, hlead.symm⟩
  · -- The line would reach beyond the gap, over something that is not blank or ends a line.
    cases y using List.reverseRecOn with
    | nil => exact ⟨[], rfl⟩
    | append_singleton y d =>
      obtain ⟨x, hx⟩ := hsuffix
      obtain ⟨a, c, rfl, hc⟩ := hpre
      have hpre : (x ++ y ++ [d]) ++ g = (a ++ [c]) ++ g := by
        rw [← hx]
        simp only [List.append_assoc]
      obtain rfl : d = c := by simpa using (List.append_inj' (List.append_cancel_right hpre) rfl).2
      rcases hc with rfl | hc
      · exact absurd (by simp) hnewline
      · rw [hblank d (by simp)] at hc
        contradiction

/-- Behind the entries of a table there is its brace, so a line of blank characters behind an entry ends. -/
theorem exists_line (h : Reads (.members ms) cs post)
    (hblank : ∀ c ∈ cs.takeWhile (· != '\n'), isBlank c = true) :
    ∃ rest, cs = cs.takeWhile (· != '\n') ++ '\n' :: rest := by
  have hbrace : '\x7d' ∈ cs := (h.close_suffix ⟨ms, rfl⟩).subset List.mem_cons_self
  have hsplit := List.takeWhile_append_dropWhile (p := (· != '\n')) (l := cs)
  cases hdrop : cs.dropWhile (· != '\n') with
  | nil =>
    rw [hdrop, List.append_nil] at hsplit
    rw [← hsplit] at hbrace
    exact absurd (hblank _ hbrace) (by decide)
  | cons c rest =>
    have hc := List.head?_dropWhile_not (· != '\n') cs
    rw [hdrop] at hc hsplit
    obtain rfl : c = '\n' := by simpa using hc
    exact ⟨rest, hsplit.symm⟩

/-- An entry that has its lines for itself. -/
theorem spanOf_lines {a indent entry tail rest : List Char} (hopened : m.opened = entry ++ m.closed)
    (hclosed : m.closed = tail ++ '\n' :: rest) (htail : m.closed.takeWhile (· != '\n') = tail)
    (hindent : lineBefore (a ++ indent ++ m.opened) m.opened = indent) (hib : isBlankText indent = true)
    (htb : isBlankText tail = true) :
    spanOf (a ++ indent ++ m.opened) m =
      ⟨a.length, a.length + (indent ++ entry ++ (tail ++ ['\n'])).length, indent, true, m.inline⟩ := by
  have hlen : (a ++ indent ++ m.opened).length =
      a.length + indent.length + entry.length + tail.length + 1 + rest.length := by
    rw [hopened, hclosed]
    simp only [List.length_append, List.length_cons]
    omega
  have hopenedLength : m.opened.length = entry.length + m.closed.length := by rw [hopened, List.length_append]
  have hclosedLength : m.closed.length = tail.length + 1 + rest.length := by
    rw [hclosed, List.length_append, List.length_cons]
    omega
  rw [spanOf]
  simp only [hindent, htail, hib, htb, Bool.and_true, if_true, hlen, List.length_append, List.length_singleton]
  rw [if_pos (by omega)]
  congr 1 <;> omega

/-- An entry that shares a line with something else. -/
theorem spanOf_entry {a entry : List Char} (hopened : m.opened = entry ++ m.closed)
    (h : ¬ (isBlankText (lineBefore (a ++ m.opened) m.opened) = true ∧
      isBlankText (m.closed.takeWhile (· != '\n')) = true)) :
    spanOf (a ++ m.opened) m = ⟨a.length, a.length + entry.length, [], false, m.inline⟩ := by
  rw [spanOf]
  simp only
  rw [if_neg (by simpa only [Bool.and_eq_true] using h), hopened]
  simp only [List.length_append]
  congr 1 <;> omega

/-! ## Entries -/

/-- The first entry of a table stands behind a gap and goes from its key to its semicolon. -/
theorem exists_entry (h : Reads (.members (m :: ms)) cs post) : ∃ g body, Gap g ∧ cs = g ++ m.opened ∧
    m.opened = (m.key.text.toList ++ body ++ [';']) ++ m.closed ∧
      IsEntry (m.key.text.toList ++ body ++ [';']) m.key m.value ∧ Reads (.members ms) m.closed post := by
  cases h with
  | @member _ start left _ _ closed _ key _ _ hskip hne hbrace hkey hequals hvalue hend hms =>
    obtain ⟨g, hg, hcs⟩ := exists_gap_of_skip hskip hne
    obtain ⟨start', text, after, hskip', htoken, htext, hcomment⟩ := scalar_eq_ok hkey
    obtain rfl : start = start' := Except.ok.inj ((skip_skip hskip hne).symm.trans hskip')
    obtain ⟨body, hbody⟩ : ';' :: closed <:+ after :=
      (((expect_suffix hend).trans hvalue.suffix).trans (rest_suffix_of_expect hequals)).trans
        (trailingComment_suffix hcomment)
    have hstart : start = (key.text.toList ++ body ++ [';']) ++ closed := by
      rw [(token?_suffix htoken).1, htext, String.toList_ofList, ← hbody]
      simp
    subst hstart
    exact ⟨g, body, hg, hcs, rfl,
      isEntry_of_reads (.member (skip_skip hskip hne) hne hbrace hkey hequals hvalue hend hms), hms⟩

/-! ## Rows -/

/-- The first entry of a table is a row, and the table goes on behind it. -/
theorem exists_row (h : Reads (.members (m :: ms)) cs post) (hpre : EndsSolid pre) :
    ∃ (r : Row) (rest : List Char), cs = r.text ++ rest ∧ Reads (.members ms) rest post ∧ r.pair = m.pair ∧
      spanOf (pre ++ cs) m = r.spanAt pre.length ∧ EndsSolid (pre ++ r.text) := by
  obtain ⟨g, body, hg, rfl, hopened, hentry, hms⟩ := exists_entry h
  have hpair : m.pair = (m.key, m.value) := rfl
  generalize m.key.text.toList ++ body = x at hopened hentry
  rw [← List.append_assoc]
  by_cases hblank : isBlankText (lineBefore (pre ++ g ++ m.opened) m.opened) = true ∧
      isBlankText (m.closed.takeWhile (· != '\n')) = true
  · -- The entry has its lines for itself.
    obtain ⟨lead, hlead⟩ := exists_lead hpre (isBlankText_iff.mp hblank.1)
    obtain ⟨rest, hrest⟩ := exists_line hms (isBlankText_iff.mp hblank.2)
    generalize hindent : lineBefore (pre ++ g ++ m.opened) m.opened = indent at hlead hblank
    generalize htail : m.closed.takeWhile (· != '\n') = tail at hrest hblank
    subst hlead
    have htailGap : Gap (tail ++ ['\n']) := (gap_of_blank (isBlankText_iff.mp hblank.2)).append gap_newline
    have hrest' : m.closed = (tail ++ ['\n']) ++ rest := by rw [hrest]; simp
    refine ⟨⟨lead, indent, x ++ [';'], tail ++ ['\n'], m.key, m.value, true, m.inline, hg,
      isBlankText_iff.mp hblank.1, htailGap, hentry, by simp⟩, rest, ?_, (hrest' ▸ hms).of_append_gap htailGap, hpair.symm,
      ?_, ?_⟩
    · rw [hopened, hrest', Row.text, Row.lines]
      simp only [List.append_assoc]
    · rw [← List.append_assoc] at hindent ⊢
      rw [spanOf_lines hopened hrest htail hindent hblank.1 hblank.2, Row.spanAt, Row.lines, List.length_append]
    · exact ⟨pre ++ (lead ++ (indent ++ (x ++ [';']) ++ tail)), '\n',
        by simp only [Row.text, Row.lines, List.append_assoc], .inl rfl⟩
  · refine ⟨⟨g, [], x ++ [';'], [], m.key, m.value, false, m.inline, by rwa [List.append_nil], by simp, .nil, hentry,
      by simp⟩, m.closed, ?_, hms, hpair.symm, ?_, ?_⟩
    · rw [hopened, Row.text, Row.lines]
      simp only [List.append_assoc, List.nil_append]
    · rw [spanOf_entry hopened hblank]
      simp only [Row.spanAt, Row.lines, List.length_append, List.append_nil, List.nil_append]
    · exact ⟨pre ++ (g ++ x), ';', by simp [Row.text, Row.lines], .inr (by decide)⟩

/-- A table is rows, and a gap in front of its brace. -/
theorem exists_rows (h : Reads (.members ms) cs post) (hpre : EndsSolid pre) :
    ∃ (rows : List Row) (foot : List Char), cs = textOfRows rows ++ (foot ++ '\x7d' :: post) ∧ Gap foot ∧
      rows.map Row.pair = ms.map Member.pair ∧ ms.map (spanOf (pre ++ cs)) = spansFrom pre.length rows := by
  induction ms generalizing pre cs with
  | nil =>
    cases h with
    | noMember hskip =>
      obtain ⟨foot, hfoot, rfl⟩ := exists_gap_of_skip hskip (by simp)
      exact ⟨[], foot, rfl, hfoot, rfl, rfl⟩
  | cons m ms ih =>
    obtain ⟨r, rest, rfl, hrest, hpair, hspan, hpre'⟩ := exists_row h hpre
    obtain ⟨rows, foot, rfl, hfoot, hpairs, hspans⟩ := ih hrest hpre'
    rw [List.append_assoc, List.length_append] at hspans
    refine ⟨r :: rows, foot, ?_, hfoot, by rw [List.map_cons, List.map_cons, hpair, hpairs], ?_⟩
    · rw [textOfRows, textOfRows, List.flatMap_cons, List.append_assoc]
    · rw [List.map_cons, hspan, hspans, spansFrom]

end Rows

end Xcode
end ModuleLink
