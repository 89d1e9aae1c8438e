import ModuleLink.Proofs.Text.Search
import ModuleLink.Proofs.Xcode.Layout

/-!
The marker lines of a text in Xcode layout, and the sections they pair up to.
-/

namespace ModuleLink
namespace Xcode

open Plist

/-! ## Lines -/

theorem linesFrom_line {line : List Char} (h : '\n' ∉ line) (offset : Nat) (rest : List Char) :
    linesFrom offset (line ++ '\n' :: rest) = (offset, line) :: linesFrom (offset + line.length + 1) rest := by
  have hall : ∀ c ∈ line, (c != '\n') = true := fun c hc => by
    simp only [bne_iff_ne]
    rintro rfl
    exact h hc
  have htake : (line ++ '\n' :: rest).takeWhile (· != '\n') = line := by
    rw [List.takeWhile_append_of_pos hall, List.takeWhile_cons_of_neg (by decide), List.append_nil]
  have hdrop : (line ++ '\n' :: rest).drop (line.length + 1) = rest := by
    rw [← List.drop_drop, List.drop_left]
    rfl
  rw [linesFrom.eq_def]
  split
  next heq => exact absurd heq (by simp)
  next heq =>
    simp only [htake, hdrop]

theorem linesFrom_of_notMem {line : List Char} (h : '\n' ∉ line) (hne : line ≠ []) (offset : Nat) :
    linesFrom offset line = [(offset, line)] := by
  have htake : line.takeWhile (· != '\n') = line := by
    refine List.takeWhile_eq_self_iff.mpr fun c hc => ?_
    simp only [bne_iff_ne]
    rintro rfl
    exact h hc
  have hdrop : line.drop (line.length + 1) = [] := List.drop_of_length_le (by omega)
  rw [linesFrom.eq_def]
  split
  · contradiction
  · simp only [htake, hdrop]
    rw [linesFrom.eq_def]

/-- Lines are counted one after the other. -/
theorem linesFrom_append {u : List Char} (hu : IsLines u) (offset : Nat) (v : List Char) :
    linesFrom offset (u ++ v) = linesFrom offset u ++ linesFrom (offset + u.length) v := by
  induction hn : u.length using Nat.strong_induction_on generalizing u offset with
  | h n ih =>
    obtain ⟨w, hw⟩ := hu
    obtain ⟨line, rest, rfl, hline⟩ : ∃ line rest, u = line ++ '\n' :: rest ∧ '\n' ∉ line :=
      List.eq_append_cons_of_mem (by simp [hw])
    rw [List.append_assoc, List.cons_append, linesFrom_line hline, linesFrom_line hline]
    by_cases hrest : rest = []
    · subst hrest
      simp [← hn, Nat.add_assoc, linesFrom.eq_def _ []]
    · have hlines : IsLines rest := by
        obtain ⟨rest', c, rfl⟩ := List.eq_nil_or_concat rest |>.resolve_left hrest
        have hlast := congrArg List.getLast? hw
        rw [List.concat_eq_append, ← List.cons_append, ← List.append_assoc, List.getLast?_concat,
          List.getLast?_concat] at hlast
        exact ⟨rest', by rw [List.concat_eq_append, Option.some.inj hlast]⟩
      have hlen : rest.length < n := by
        rw [← hn, List.length_append, List.length_cons]
        omega
      rw [ih rest.length hlen hlines _ rfl, ← hn, List.length_append, List.length_cons, List.cons_append,
        show offset + (line.length + (rest.length + 1)) = offset + line.length + 1 + rest.length by omega]

theorem map_snd_linesFrom (offset offset' : Nat) (cs : List Char) :
    (linesFrom offset cs).map (·.2) = (linesFrom offset' cs).map (·.2) := by
  fun_induction linesFrom offset cs generalizing offset' with
  | case1 => rw [linesFrom.eq_def]
  | case2 offset c rest line ih =>
    rw [linesFrom.eq_def offset']
    simp only [List.map_cons]
    rw [ih]

/-! ## Marker lines -/

/-- The markers of a part of a text, which starts at `offset` of a text of length `total`. -/
def markersFrom (total offset : Nat) (cs : List Char) : List Marker :=
  (linesFrom offset cs).filterMap fun (start, line) =>
    (markerOf? line).map fun (opens, isa) => ⟨opens, isa, start, min (start + line.length + 1) total⟩

theorem markers_eq (text : List Char) : markers text = markersFrom text.length 0 text := rfl

variable {total offset : Nat}

theorem markersFrom_eq_nil_iff {cs : List Char} :
    markersFrom total offset cs = [] ↔ ∀ line ∈ (linesFrom offset cs).map (·.2), markerOf? line = none := by
  simp only [markersFrom, List.filterMap_eq_nil_iff, Option.map_eq_none_iff, List.mem_map]
  constructor
  · rintro h line ⟨p, hp, rfl⟩
    exact h p hp
  · exact fun h p hp => h p.2 ⟨p, hp, rfl⟩

theorem markersFrom_of_unmarked {cs : List Char} (h : markers cs = []) : markersFrom total offset cs = [] := by
  rw [markers_eq, markersFrom_eq_nil_iff] at h
  rw [markersFrom_eq_nil_iff, map_snd_linesFrom offset 0]
  exact h

theorem markersFrom_append {u : List Char} (hu : IsLines u) (v : List Char) :
    markersFrom total offset (u ++ v) = markersFrom total offset u ++ markersFrom total (offset + u.length) v := by
  rw [markersFrom, linesFrom_append hu, List.filterMap_append]
  rfl

theorem markerOf?_of_head {line : List Char} (h : line.head? ≠ some '/') : markerOf? line = none := by
  have hafter (p : List Char) : Text.after? ('/' :: p) line = none := by
    cases line with
    | nil => rfl
    | cons c line =>
      rw [Text.after?, if_neg]
      rintro rfl
      exact h rfl
  have hbegin : Text.after? "/* Begin ".toList line = none := hafter _
  have hend : Text.after? "/* End ".toList line = none := hafter _
  simp only [markerOf?, hbegin, hend]
  rfl

theorem IsIndent.markersFrom_eq_nil {cs : List Char} (h : IsIndent cs) : markersFrom total offset cs = [] := by
  rw [markersFrom_eq_nil_iff]
  by_cases hne : cs = []
  · subst hne
    rw [linesFrom.eq_def]
    simp
  · rw [linesFrom_of_notMem h.line hne]
    intro line hline
    obtain rfl : line = cs := by simpa using hline
    refine markerOf?_of_head fun hhead => ?_
    obtain ⟨s, rfl⟩ := List.head?_eq_some_iff.mp hhead
    exact absurd (isBlankText_iff.mp h.blank '/' List.mem_cons_self) (by decide)

/-- A marker line without its end. -/
def markerText (opens : Bool) (isa : String) : List Char :=
  (if opens then "/* Begin ".toList else "/* End ".toList) ++ (isa.toList ++ " section */".toList)

theorem markerLine_eq_append (opens : Bool) (isa : String) : markerLine opens isa = markerText opens isa ++ ['\n'] := by
  have hend : " section */\n".toList = " section */".toList ++ ['\n'] := rfl
  rw [markerLine, markerText, hend]
  simp only [List.append_assoc]

section Named

variable {isa : String}

theorem newline_notMem_markerText (h : ∀ c ∈ isa.toList, Text.isWord c = true) (opens : Bool) :
    '\n' ∉ markerText opens isa := by
  have hisa : '\n' ∉ isa.toList := fun hmem => absurd (h '\n' hmem) (by decide)
  have hend : '\n' ∉ " section */".toList := by decide
  have hstart : '\n' ∉ (if opens then "/* Begin ".toList else "/* End ".toList) := by cases opens <;> decide
  rw [markerText]
  simp only [List.mem_append, not_or]
  exact ⟨hstart, hisa, hend⟩

theorem markerOf?_markerText (hne : isa.toList ≠ []) (h : ∀ c ∈ isa.toList, Text.isWord c = true) (opens : Bool) :
    markerOf? (markerText opens isa) = some (opens, isa) := by
  have hsection : " section */".toList = ' ' :: "section */".toList := rfl
  have htake : (isa.toList ++ " section */".toList).takeWhile Text.isWord = isa.toList := by
    rw [hsection, List.takeWhile_append_of_pos h, List.takeWhile_cons_of_neg (by decide), List.append_nil]
  have hdrop : (isa.toList ++ " section */".toList).dropWhile Text.isWord = " section */".toList := by
    rw [hsection, List.dropWhile_append_of_pos h, List.dropWhile_cons_of_neg (by decide)]
  have hstarts : Text.startsWith " section */".toList " section */".toList = true := by decide
  have hisEmpty : isa.toList.isEmpty = false := by simpa using hne
  rw [markerOf?]
  cases opens with
  | true =>
    rw [markerText, if_pos rfl, Text.after?_append]
    simp only [htake, hdrop, hstarts, hisEmpty, String.ofList_toList]
    rfl
  | false =>
    have hother : Text.after? "/* Begin ".toList (markerText false isa) = none := rfl
    have hown : Text.after? "/* End ".toList (markerText false isa) = some (isa.toList ++ " section */".toList) := by
      rw [markerText, if_neg (by decide), Text.after?_append]
    rw [hother]
    simp only [hown, Option.bind_some, htake, hdrop, hstarts, hisEmpty, String.ofList_toList]
    rfl

theorem markersFrom_markerLine (hne : isa.toList ≠ []) (h : ∀ c ∈ isa.toList, Text.isWord c = true) (opens : Bool)
    (hle : offset + (markerLine opens isa).length ≤ total) :
    markersFrom total offset (markerLine opens isa) =
      [⟨opens, isa, offset, offset + (markerLine opens isa).length⟩] := by
  have hlen : (markerLine opens isa).length = (markerText opens isa).length + 1 := by
    rw [markerLine_eq_append, List.length_append, List.length_singleton]
  rw [markersFrom, markerLine_eq_append, linesFrom_line (newline_notMem_markerText h opens), linesFrom.eq_def _ []]
  simp only [List.filterMap_cons, List.filterMap_nil, markerOf?_markerText hne h opens, Option.map_some]
  rw [← markerLine_eq_append, hlen, Nat.min_eq_left (by omega), Nat.add_assoc]

end Named

/-! ## Sections -/

theorem Part.markers_text (p : Part) : markers p.text = [] := by
  cases p with
  | filler f => exact f.unmarked
  | object o => exact o.unmarked

theorem markersFrom_parts (ps : List Part) :
    ∀ offset, markersFrom total offset (textOf (ps.map .part)) = [] := by
  induction ps with
  | nil =>
    intro offset
    rw [List.map_nil, textOf_nil, markersFrom, linesFrom.eq_def]
    rfl
  | cons p ps ih =>
    intro offset
    rw [List.map_cons, textOf_cons, markersFrom_append (Cell.part p).text_isLines, ih, List.append_nil]
    exact markersFrom_of_unmarked p.markers_text

namespace Kind

/-- Where the section of a kind stands, when its first line starts at `offset`. -/
def sectionAt (k : Kind) (offset : Nat) : Section :=
  let beginStop := offset + (markerLine true k.isa).length
  let endStart := beginStop + (textOf (k.parts.map .part)).length
  ⟨k.isa, offset, beginStop, endStart, endStart + (markerLine false k.isa).length, []⟩

theorem textOf_cells (k : Kind) :
    textOf k.cells = markerLine true k.isa ++ (textOf (k.parts.map .part) ++ markerLine false k.isa) := by
  simp [cells, Cell.text]

theorem endStop_sectionAt (k : Kind) (offset : Nat) : (k.sectionAt offset).endStop = offset + (textOf k.cells).length := by
  rw [textOf_cells, sectionAt]
  simp only [List.length_append]
  omega

theorem markersFrom_cells (k : Kind) (h : offset + (textOf k.cells).length ≤ total) :
    markersFrom total offset (textOf k.cells) =
      [⟨true, k.isa, offset, (k.sectionAt offset).beginStop⟩,
        ⟨false, k.isa, (k.sectionAt offset).endStart, (k.sectionAt offset).endStop⟩] := by
  rw [textOf_cells] at h ⊢
  simp only [List.length_append] at h
  rw [markersFrom_append (markerLine_isLines _ _), markersFrom_markerLine k.isa_ne k.isa_word _ (by omega)]
  have hparts : markersFrom total (offset + (markerLine true k.isa).length)
      (textOf (k.parts.map .part) ++ markerLine false k.isa) =
      markersFrom total (offset + (markerLine true k.isa).length + (textOf (k.parts.map .part)).length)
        (markerLine false k.isa) := by
    cases hps : k.parts with
    | nil => simp
    | cons p ps =>
      have hlines : IsLines (textOf ((p :: ps).map .part)) := by
        rw [List.map_cons, textOf_cons]
        exact p.text_isLines.append_textOf _
      rw [markersFrom_append hlines, markersFrom_parts, List.nil_append]
  rw [hparts, markersFrom_markerLine k.isa_ne k.isa_word _ (by omega)]
  rfl

end Kind

/-- The sections of blocks, when the blocks start at `offset`. -/
def sectionsAt : (offset : Nat) → List Block → List Section
  | _, [] => []
  | offset, .filler f :: bs => sectionsAt (offset + f.text.length) bs
  | offset, .kind k :: bs => k.sectionAt offset :: sectionsAt (offset + (textOf k.cells).length) bs

@[simp] theorem Block.textOf_cells_filler (f : Filler) : textOf (Block.filler f).cells = f.text := by
  simp [Block.cells, Cell.text, Part.text]

theorem map_isa_sectionsAt (offset : Nat) (bs : List Block) :
    (sectionsAt offset bs).map Section.isa = (kindsIn bs).map Kind.isa := by
  induction bs generalizing offset with
  | nil => rfl
  | cons b bs ih =>
    cases b with
    | filler f => exact ih _
    | kind k => exact congrArg (k.isa :: ·) (ih _)

theorem mem_sectionsAt {bs : List Block} {s : Section} (h : s ∈ sectionsAt offset bs) :
    ∃ as k cs, bs = as ++ .kind k :: cs ∧ s = k.sectionAt (offset + (textOf (cellsOf as)).length) := by
  induction bs generalizing offset with
  | nil => contradiction
  | cons b bs ih =>
    have hlater {n : Nat} (hn : n = offset + (textOf b.cells).length) (h : s ∈ sectionsAt n bs) :
        ∃ as k cs, b :: bs = as ++ .kind k :: cs ∧ s = k.sectionAt (offset + (textOf (cellsOf as)).length) := by
      obtain ⟨as, k, cs, rfl, rfl⟩ := ih h
      refine ⟨b :: as, k, cs, rfl, ?_⟩
      rw [hn, cellsOf_cons, textOf_append, List.length_append, Nat.add_assoc]
    cases b with
    | filler f => exact hlater (by rw [Block.textOf_cells_filler]) h
    | kind k =>
      rcases List.mem_cons.mp h with rfl | h
      · exact ⟨[], k, bs, rfl, by simp [cellsOf]⟩
      · exact hlater rfl h

/-- The markers of blocks of different kinds pair up to their sections, in their order. -/
theorem pairMarkers_eq {bs : List Block} :
    ∀ (offset : Nat) (done : List (String × Section)) (rest : List Marker),
      offset + (textOf (cellsOf bs)).length ≤ total → ((kindsIn bs).map Kind.isa).Nodup →
      (∀ k ∈ kindsIn bs, k.isa ∉ done.map (·.1)) →
      pairMarkers (markersFrom total offset (textOf (cellsOf bs)) ++ rest) [] done =
        pairMarkers rest [] (done ++ (sectionsAt offset bs).map fun s => (s.isa, s)) := by
  induction bs with
  | nil =>
    intro offset done rest _ _ _
    rw [cellsOf, List.flatMap_nil, textOf_nil, markersFrom, linesFrom.eq_def, sectionsAt, List.map_nil, List.append_nil]
    rfl
  | cons b bs ih =>
    intro offset done rest hle hnodup hnew
    rw [cellsOf_cons, textOf_append, List.length_append] at hle
    rw [cellsOf_cons, textOf_append]
    cases b with
    | filler f =>
      rw [Block.textOf_cells_filler] at hle ⊢
      rw [markersFrom_append f.lines, markersFrom_of_unmarked f.unmarked, List.nil_append,
        ih (offset + f.text.length) done rest (by omega) hnodup hnew]
      rfl
    | kind k =>
      rw [show (Block.kind k).cells = k.cells from rfl] at hle ⊢
      rw [show kindsIn (.kind k :: bs) = k :: kindsIn bs from rfl] at hnodup hnew
      rw [List.map_cons, List.nodup_cons] at hnodup
      have hlines : IsLines (textOf k.cells) := by
        rw [Kind.textOf_cells]
        obtain ⟨u, hu⟩ := markerLine_isLines false k.isa
        exact ⟨markerLine true k.isa ++ (textOf (k.parts.map .part) ++ u), by rw [hu]; simp only [List.append_assoc]⟩
      have hfilter : [(k.isa, (⟨true, k.isa, offset, (k.sectionAt offset).beginStop⟩ : Marker))].filter
          (fun e => e.1 ≠ k.isa) = [] := by simp
      rw [markersFrom_append hlines, k.markersFrom_cells (by omega), List.append_assoc, List.cons_append,
        List.singleton_append, pairMarkers, if_pos rfl, pairMarkers, if_neg (by simp)]
      simp only [Entries.lookup_cons_self]
      rw [hfilter]
      show pairMarkers _ [] (Dict.assign k.isa (k.sectionAt offset) done) = _
      rw [Dict.assign_of_notMem (hnew k (by simp)), ih _ _ rest (by omega) hnodup.2 fun k' hk' hin => ?_]
      · rw [sectionsAt, List.map_cons, List.append_assoc]
        rfl
      · rw [List.map_append, List.mem_append] at hin
        rcases hin with hin | hin
        · exact hnew k' (by simp [hk']) hin
        · have heq : k'.isa = k.isa := List.mem_singleton.mp hin
          exact hnodup.1 (heq ▸ List.mem_map_of_mem hk')

/-- The sections of a text in Xcode layout are those of its kinds. -/
theorem Layout.pairMarkers_eq (L : Layout) :
    pairMarkers (markers (L.head ++ textOf L.cells ++ L.indent)) [] [] =
      (sectionsAt L.head.length L.blocks).map fun s => (s.isa, s) := by
  have hlines : IsLines (L.head ++ textOf L.cells) := L.head_lines.append_textOf _
  have hle : L.head.length + (textOf (cellsOf L.blocks)).length ≤ (L.head ++ textOf L.cells ++ L.indent).length := by
    simp [cells]
  have hpairs := Xcode.pairMarkers_eq L.head.length [] [] hle L.isas_nodup (by simp)
  rw [markers_eq, markersFrom_append hlines, markersFrom_append L.head_lines, markersFrom_of_unmarked L.head_unmarked,
    L.indent_isIndent.markersFrom_eq_nil, List.nil_append, Nat.zero_add]
  exact hpairs

end Xcode
end ModuleLink
