import Mathlib
import ModuleLink.Proofs.Xcode.Changes
import ModuleLink.Proofs.Xcode.Loaded

/-!
The edits that write a changed graph back into a text in Xcode layout.  They start and stop between the lines of the
table, take away the objects that were removed or touched, and put in everything that was added or touched.
-/

namespace ModuleLink
namespace Xcode

open Plist Text

/-! ## Objects as they are read back -/

/-- The object as it is read back: no key is remembered that has gone. -/
def Object.tidy (o : Object) : Object := { o with fields := o.fields.tidy }

/-- What is written for an object, without what is around it on its lines, is its entry. -/
theorem isEntry_renderObject {o : Object} (ho : o.IsProper) {indent : List Char}
    (hblank : ∀ c ∈ indent, isBlank c = true) (inline : Bool) :
    IsEntry (renderScalar ⟨o.id, o.comment⟩ ++ " = ".toList ++
      (if inline then renderInline (.dict o.fields) else renderBlock indent (.dict o.fields)) ++ ";".toList)
      ⟨o.id, o.comment⟩ (.dict o.fields.tidy) := by
  refine isEntry_render (ho.id.isWritten ho.comment) fun t => ?_
  rw [← Value.tidy_dict]
  split
  · exact reads_renderInline ho.fields.readable (by decide) t
  · exact reads_renderBlock ho.fields.readable hblank (by decide) t

/-- What is written for an object holds it, also behind something that makes up a gap with its indent. -/
theorem carries_append_renderObject {o : Object} (ho : o.IsProper) {lead indent : List Char}
    (hgap : Gap (lead ++ indent)) (hblank : ∀ c ∈ indent, isBlank c = true) (inline wholeLine : Bool) :
    Carries (lead ++ renderObject o indent inline wholeLine) [o.tidy.pair] := by
  have hend : Carries (if wholeLine then ['\n'] else []) [] := by
    cases wholeLine
    · exact carries_gap .nil
    · exact carries_gap gap_newline
  have hline : Carries _ [o.tidy.pair] :=
    ((carries_gap hgap).append (isEntry_renderObject ho hblank inline).carries).append hend
  rw [renderObject]
  simpa only [List.append_assoc] using hline

theorem carries_renderObject {o : Object} (ho : o.IsProper) {indent : List Char}
    (hblank : ∀ c ∈ indent, isBlank c = true) (inline wholeLine : Bool) :
    Carries (renderObject o indent inline wholeLine) [o.tidy.pair] := by
  have hgap : Gap ([] ++ indent) := gap_of_blank hblank
  exact carries_append_renderObject ho hgap hblank inline wholeLine

/-! ## Places between lines -/

section Places

variable {L : Layout} {g₀ g : Graph}

theorem Follows.laid (h : Follows g₀ g) (hlaid : Laid L g₀) : Laid L g := by
  rw [h.frame]
  exact ⟨hlaid.text, hlaid.tableEnd, hlaid.root, hlaid.spans, hlaid.spans_some, hlaid.sections⟩

/-- The place is that of a line of the table, or the end of the last one. -/
def Layout.Between (L : Layout) (n : Nat) : Prop := Edit.Boundary L.head.length (L.cells.map Cell.text) n

theorem Layout.between_of_split {as bs : List Cell} (h : L.cells = as ++ bs) :
    L.Between (L.head.length + (textOf as).length) :=
  ⟨as.map Cell.text, bs.map Cell.text, by rw [h, List.map_append], rfl⟩

theorem Layout.At.between_start {n : Nat} {c : Cell} (h : L.At n c) : L.Between n := by
  obtain ⟨as, bs, hcells, rfl⟩ := h
  exact Layout.between_of_split hcells

theorem Layout.At.between_stop {n : Nat} {c : Cell} (h : L.At n c) : L.Between (n + c.text.length) := by
  obtain ⟨as, bs, hcells, rfl⟩ := h
  have hsplit : L.cells = (as ++ [c]) ++ bs := by rw [hcells, List.append_assoc]; rfl
  have := Layout.between_of_split hsplit
  rwa [textOf_append, textOf_cons, textOf_nil, List.append_nil, List.length_append, ← Nat.add_assoc] at this

theorem markerLine_not_suffix (opens : Bool) (isa : String) : ¬ ['\n', '\n'] <:+ markerLine opens isa := by
  have hend : " section */\n".toList = " section *".toList ++ (['/'] ++ ['\n']) := rfl
  obtain ⟨w, hw⟩ : ∃ w, markerLine opens isa = (w ++ ['/']) ++ ['\n'] := by
    rw [markerLine, hend, ← List.append_assoc, ← List.append_assoc]
    exact ⟨_, rfl⟩
  rintro ⟨u, hu⟩
  have hsplit : (u ++ ['\n']) ++ ['\n'] = (w ++ ['/']) ++ ['\n'] := by rw [← hw, ← hu, List.append_assoc]; rfl
  have hlast := congrArg List.getLast? (List.append_cancel_right hsplit)
  rw [List.getLast?_concat, List.getLast?_concat] at hlast
  exact absurd hlast (by decide)

/-- A line that is empty, or ends with an empty line, is an empty line between objects. -/
theorem Cell.exists_empty {c : Cell} (h : c.text.head? = some '\n' ∨ ['\n', '\n'] <:+ c.text) :
    ∃ f, c = .part (.filler f) ∧ f.text = ['\n'] := by
  cases c with
  | marker opens isa =>
    rcases h with h | h
    · rw [Cell.text, markerLine_eq, List.head?_cons] at h
      exact absurd (Option.some.inj h) (by decide)
    · exact absurd h (markerLine_not_suffix opens isa)
  | part p =>
    cases p with
    | object o => exact (h.elim o.text_head?_ne o.text_not_suffix).elim
    | filler f =>
      refine ⟨f, rfl, f.single.resolve_right ?_⟩
      rintro ⟨hhead, hlast⟩
      exact h.elim hhead hlast

theorem Layout.exists_empty_line {cs : List Cell} (h : startsWith ['\n'] (textOf cs ++ L.closing) = true) :
    ∃ f ds, cs = .part (.filler f) :: ds ∧ f.text = ['\n'] := by
  obtain ⟨r, hr⟩ := startsWith_iff.mp h
  cases cs with
  | nil =>
    rw [textOf_nil, List.nil_append, Layout.closing] at hr
    cases hi : L.indent with
    | nil =>
      rw [hi] at hr
      exact absurd (List.cons.inj hr).1 (by decide)
    | cons x indent =>
      rw [hi] at hr
      have hline := L.indent_isIndent.line
      rw [hi, (List.cons.inj hr).1] at hline
      exact absurd List.mem_cons_self hline
  | cons c cs =>
    obtain ⟨x, s, hs⟩ := List.exists_cons_of_ne_nil c.text_ne_nil
    rw [textOf_cons, hs] at hr
    obtain ⟨f, rfl, hf⟩ := Cell.exists_empty (c := c) (.inl (by rw [hs, (List.cons.inj hr).1]; rfl))
    exact ⟨f, cs, rfl, hf⟩

theorem Layout.exists_last_empty_line {cs : List Cell} (h : ['\n', '\n'] <:+ L.head ++ textOf cs) :
    ∃ f ds, cs = ds ++ [.part (.filler f)] ∧ f.text = ['\n'] := by
  cases cs using List.reverseRecOn with
  | nil =>
    rw [textOf_nil, List.append_nil] at h
    exact absurd h L.head_single
  | append_singleton ds c =>
    rw [textOf_append, textOf_cons, textOf_nil, List.append_nil, ← List.append_assoc] at h
    obtain ⟨v, hv⟩ := c.text_isLines
    obtain ⟨u, hu⟩ := h
    rw [hv] at hu
    have hempty : c.text.head? = some '\n' ∨ ['\n', '\n'] <:+ c.text := by
      cases v using List.reverseRecOn with
      | nil => exact .inl (by rw [hv]; rfl)
      | append_singleton w x =>
        have hsplit : (u ++ ['\n']) ++ ['\n'] = (L.head ++ textOf ds ++ w ++ [x]) ++ ['\n'] := by
          simpa only [List.append_assoc, List.cons_append, List.nil_append] using hu
        obtain ⟨-, hx⟩ := List.append_inj' (List.append_cancel_right hsplit) rfl
        rw [hv, ← hx]
        exact .inr ⟨w, by simp⟩
    obtain ⟨f, rfl, hf⟩ := Cell.exists_empty hempty
    exact ⟨f, ds, rfl, hf⟩

/-! ## Sections -/

/-- Where a section stands, and what is in it. -/
theorem Laid.exists_kind (h : Laid L g) {s : Section} (hs : s ∈ g.sections) :
    ∃ as k bs, L.cells = as ++ (k.cells ++ bs) ∧ k ∈ kindsIn L.blocks ∧ s.isa = k.isa ∧
      s.beginStart = L.head.length + (textOf as).length ∧
      s.endStart = L.head.length + (textOf (as ++ .marker true k.isa :: k.parts.map .part)).length ∧
      s.endStop = L.head.length + (textOf as).length + (textOf k.cells).length ∧
      ∀ id, id ∈ s.members ↔ ∃ o ∈ k.objects, o.id = id := by
  obtain ⟨as, k, bs, hblocks, hsection, hmembers⟩ := h.sections s hs
  refine ⟨cellsOf as, k, cellsOf bs, ?_, ?_, ?_, ?_, ?_, ?_, hmembers⟩
  · rw [Layout.cells, hblocks, cellsOf_append, cellsOf_cons]
    rfl
  · exact List.mem_filterMap.mpr ⟨.kind k, by rw [hblocks]; simp, rfl⟩
  · rw [hsection]
    rfl
  · rw [hsection]
    rfl
  · rw [hsection]
    simp only [Kind.sectionAt, textOf_append, textOf_cons, List.length_append, Cell.text]
    omega
  · rw [hsection]
    exact k.endStop_sectionAt _

theorem Kind.mem_objects_of_cell {k : Kind} {o : ObjectLines} (h : .part (.object o) ∈ k.cells) : o ∈ k.objects := by
  rw [Layout.mem_kind_objects]
  simpa [Kind.cells] using h

/-- The kind that a cell belongs to. -/
def Cell.isa? : Cell → Option String
  | .part (.filler _) => none
  | .part (.object o) => some o.object.isa
  | .marker _ isa => some isa

theorem Kind.isa?_of_mem {k : Kind} {c : Cell} (h : c ∈ k.cells) : c.isa? = none ∨ c.isa? = some k.isa := by
  rw [Kind.cells, List.mem_cons, List.mem_append, List.mem_map, List.mem_singleton] at h
  rcases h with rfl | ⟨p, hp, rfl⟩ | rfl
  · exact .inr rfl
  · cases p with
    | filler f => exact .inl rfl
    | object o => exact .inr (congrArg some (k.own o hp))
  · exact .inr rfl

/-- A section is taken out with the blank line behind it, else with the one before it, else alone. -/
theorem Laid.dropSection_cases (h : Laid L g) {s : Section} {as bs : List Cell} {k : Kind}
    (hcells : L.cells = as ++ (k.cells ++ bs)) (hbegin : s.beginStart = L.head.length + (textOf as).length)
    (hstop : s.endStop = L.head.length + (textOf as).length + (textOf k.cells).length) :
    (startsWith ['\n'] (g.text.drop s.endStop) = true ∧
        ∃ f ds, bs = .part (.filler f) :: ds ∧ f.text = ['\n'] ∧ g.dropSection s = ⟨s.beginStart, s.endStop + 1, []⟩) ∨
      ((startsWith ['\n'] (g.text.drop s.endStop) = false) ∧
        ((∃ f ds, as = ds ++ [.part (.filler f)] ∧ f.text = ['\n'] ∧
            g.dropSection s = ⟨s.beginStart - 1, s.endStop, []⟩) ∨
          (¬ ['\n', '\n'] <:+ L.head ++ textOf as) ∧ g.dropSection s = ⟨s.beginStart, s.endStop, []⟩)) := by
  have htext : g.text = (L.head ++ textOf as ++ textOf k.cells) ++ (textOf bs ++ L.closing) := by
    rw [h.text, Layout.text, hcells, textOf_append, textOf_append]
    simp only [List.append_assoc]
  have hlen : s.beginStart = (L.head ++ textOf as).length := by rw [hbegin, List.length_append]
  have hbefore (htwo : 2 ≤ (L.head ++ textOf as).length) :
      startsWith ['\n', '\n'] (g.text.drop (s.beginStart - 2)) = true ↔ ['\n', '\n'] <:+ L.head ++ textOf as := by
    have htwo' : ((L.head ++ textOf as).drop ((L.head ++ textOf as).length - 2)).length = ['\n', '\n'].length := by
      rw [List.length_drop]
      show _ = 2
      omega
    rw [htext, List.append_assoc (L.head ++ textOf as), hlen, List.drop_append_of_le_length (by omega), startsWith_iff]
    constructor
    · rintro ⟨r, hr⟩
      rw [← (List.append_inj hr htwo').1]
      exact List.drop_suffix _ _
    · rintro ⟨u, hu⟩
      refine ⟨textOf k.cells ++ (textOf bs ++ L.closing), congrArg (· ++ _) ?_⟩
      rw [← hu, List.length_append, show ['\n', '\n'].length = 2 from rfl, Nat.add_sub_cancel, List.drop_left]
  rw [Graph.dropSection]
  split
  next hempty =>
    have hend : s.endStop = (L.head ++ textOf as ++ textOf k.cells).length := by
      rw [hstop, List.length_append, List.length_append]
    have hline := hempty
    rw [htext, hend, List.drop_left] at hline
    obtain ⟨f, ds, rfl, hf⟩ := Layout.exists_empty_line hline
    exact .inl ⟨hempty, f, ds, rfl, hf, rfl⟩
  next hfull =>
    refine .inr ⟨by simpa using hfull, ?_⟩
    split
    next hempty =>
      obtain ⟨htwo, hstarts⟩ := Bool.and_eq_true_iff.mp hempty
      have htwo : 2 ≤ (L.head ++ textOf as).length := hlen ▸ of_decide_eq_true htwo
      obtain ⟨f, ds, rfl, hf⟩ := Layout.exists_last_empty_line ((hbefore htwo).mp hstarts)
      exact .inl ⟨f, ds, rfl, hf, rfl⟩
    next hfull =>
      refine .inr ⟨fun hsuffix => hfull ?_, rfl⟩
      have htwo : 2 ≤ (L.head ++ textOf as).length := hsuffix.length_le
      exact Bool.and_eq_true_iff.mpr ⟨decide_eq_true (hlen ▸ htwo), (hbefore htwo).mpr hsuffix⟩

/-- A section that is taken out goes with whole lines, all of its kind or of none, on which there are no objects but its
members. -/
theorem Laid.exists_dropped (h : Laid L g) {s : Section} (hs : s ∈ g.sections) :
    ∃ as cs bs, L.cells = as ++ (cs ++ bs) ∧
      g.dropSection s = ⟨L.head.length + (textOf as).length, L.head.length + (textOf as).length + (textOf cs).length, []⟩ ∧
      L.head.length + (textOf as).length ≤ s.beginStart ∧
      s.endStop ≤ L.head.length + (textOf as).length + (textOf cs).length ∧
      (∀ o, .part (.object o) ∈ cs → o.id ∈ s.members) ∧ ∀ c ∈ cs, c.isa? = none ∨ c.isa? = some s.isa := by
  obtain ⟨as, k, bs, hcells, -, hisa, hbegin, -, hstop, hmembers⟩ := h.exists_kind hs
  have hobjects : ∀ o, .part (.object o) ∈ k.cells → o.id ∈ s.members := fun o ho =>
    (hmembers o.id).mpr ⟨o, Kind.mem_objects_of_cell ho, rfl⟩
  have hkinds : ∀ c ∈ k.cells, c.isa? = none ∨ c.isa? = some s.isa := fun c hc => hisa ▸ Kind.isa?_of_mem hc
  have hlines {f : Filler} (hf : f.text = ['\n']) : (textOf [.part (.filler f)]).length = 1 := by
    rw [textOf_cons, textOf_nil, List.append_nil]
    exact congrArg List.length hf
  rcases h.dropSection_cases hcells hbegin hstop with
    ⟨-, f, ds, rfl, hf, hdrop⟩ | ⟨-, ⟨f, ds, rfl, hf, hdrop⟩ | ⟨-, hdrop⟩⟩
  · refine ⟨as, k.cells ++ [.part (.filler f)], ds, by rw [hcells, List.append_assoc]; rfl, ?_, hbegin.ge, ?_,
      fun o ho => hobjects o (by simpa using ho), fun c hc => ?_⟩
    · rw [hdrop, textOf_append, List.length_append, hlines hf, hbegin, hstop, Nat.add_assoc]
    · rw [textOf_append, List.length_append, hstop]
      omega
    · rcases List.mem_append.mp hc with hc | hc
      · exact hkinds c hc
      · obtain rfl := List.mem_singleton.mp hc
        exact .inl rfl
  · have hbefore := hlines hf
    rw [textOf_append, List.length_append] at hbegin hstop
    refine ⟨ds, [.part (.filler f)] ++ k.cells, bs, by rw [hcells, List.append_assoc, List.append_assoc], ?_, ?_, ?_,
      fun o ho => hobjects o (by simpa using ho), fun c hc => ?_⟩
    · rw [hdrop, textOf_append, List.length_append, hbegin, hstop]
      congr 1 <;> omega
    · omega
    · rw [textOf_append, List.length_append]
      omega
    · rcases List.mem_append.mp hc with hc | hc
      · obtain rfl := List.mem_singleton.mp hc
        exact .inl rfl
      · exact hkinds c hc
  · refine ⟨as, k.cells, bs, hcells, ?_, hbegin.ge, hstop.le, hobjects, hkinds⟩
    rw [hdrop, hbegin, hstop]

end Places

/-! ## Objects that are put in -/

/-- The edit puts in entries for these objects, and nothing else. -/
def Puts (e : Edit) (os : List Object) : Prop := Carries e.text (os.map fun o => o.tidy.pair)

section Insertions

variable {L : Layout} {g : Graph} {isa : String} {os : List Object} {e : Edit}

theorem carries_flatMap {f : Object → List Char} (h : ∀ o ∈ os, Carries (f o) [o.tidy.pair]) :
    Carries (os.flatMap f) (os.map fun o => o.tidy.pair) := by
  induction os with
  | nil => exact carries_gap .nil
  | cons o os ih =>
    have hrest := ih fun p hp => h p (by simp [hp])
    exact (h o (by simp)).append hrest

theorem carries_tableLine {o : Object} (ho : o.IsProper) (inline : Bool) :
    Carries (renderObject o tableIndent inline true) [o.tidy.pair] := by
  have hblank : ∀ c ∈ tableIndent, isBlank c = true := List.all_eq_true.mp (by decide)
  exact carries_renderObject ho hblank inline true

/-- New sections are read as the objects in them. -/
theorem carries_section (hisa : IsKindName isa) (hos : ∀ o ∈ os, o.IsProper) :
    Carries ("/* Begin ".toList ++ isa.toList ++ " section */\n".toList ++
      os.flatMap (fun o => renderObject o tableIndent (isInlineKind isa) true) ++
      "/* End ".toList ++ isa.toList ++ " section */\n".toList) (os.map fun o => o.tidy.pair) := by
  have hbegin : Carries (markerLine true isa) [] := carries_gap (gap_markerLine hisa.word true)
  have hend : Carries (markerLine false isa) [] := carries_gap (gap_markerLine hisa.word false)
  have hobjects := carries_flatMap fun o ho => carries_tableLine (hos o ho) (isInlineKind isa)
  have hsection := (hbegin.append hobjects).append hend
  simpa only [markerLine, if_true, if_false, Bool.false_eq_true, List.append_assoc, List.nil_append, List.append_nil]
    using hsection

/-- New sections that no other follows go to the start of the last line of the table. -/
theorem Laid.lastLineStart_eq (h : Laid L g) : g.lastLineStart = L.head.length + (textOf L.cells).length := by
  obtain ⟨u, hu⟩ := L.head_lines.append_textOf L.cells
  have hsplit : L.text = (L.head ++ textOf L.cells ++ L.indent) ++ '\x7d' :: L.foot := by
    simp only [Layout.text, Layout.closing, List.append_assoc]
  have htake : g.text.take g.tableEnd = u ++ '\n' :: L.indent := by
    rw [h.text, h.tableEnd, hsplit, List.take_left, hu, List.append_assoc]
    rfl
  have hline : (u ++ '\n' :: L.indent).reverse.takeWhile (· != '\n') = L.indent.reverse := by
    rw [List.reverse_append, List.reverse_cons, List.append_assoc, List.singleton_append,
      takeWhile_line (by simpa using L.indent_isIndent.line)]
  rw [Graph.lastLineStart, htake, hline, h.tableEnd, List.length_reverse, List.length_append, Nat.add_sub_cancel,
    List.length_append]

theorem Laid.between_begin (h : Laid L g) {s : Section} (hs : s ∈ g.sections) : L.Between s.beginStart := by
  obtain ⟨as, k, bs, hcells, -, -, hbegin, -⟩ := h.exists_kind hs
  rw [hbegin]
  exact Layout.between_of_split hcells

theorem Laid.between_end (h : Laid L g) {s : Section} (hs : s ∈ g.sections) : L.Between s.endStart := by
  obtain ⟨as, k, bs, hcells, -, -, -, hend, -⟩ := h.exists_kind hs
  rw [hend]
  have hsplit : L.cells = (as ++ .marker true k.isa :: k.parts.map .part) ++ .marker false k.isa :: bs := by
    rw [hcells, Kind.cells]
    simp only [List.append_assoc, List.cons_append, List.nil_append]
  exact Layout.between_of_split hsplit

theorem Laid.between_span (h : Laid L g) {id : String} {span : Span} (hspan : g.spans.lookup id = some span) :
    L.Between span.start := by
  obtain ⟨o, inline, n, hat, -, rfl⟩ := h.spans id span hspan
  exact hat.between_start

/-- New objects of a kind go between lines, and are what the edits put in. -/
theorem Laid.insertionEdits (h : Laid L g) (hisa : IsKindName isa) (hos : ∀ o ∈ os, o.IsProper) :
    (∀ e ∈ g.insertionEdits isa os, L.Between e.start ∧ e.stop = e.start ∧ ∃ ps, Puts e ps ∧ ∀ o ∈ ps, o ∈ os) ∧
      ∀ o ∈ os, ∃ e ∈ g.insertionEdits isa os, ∃ ps, Puts e ps ∧ o ∈ ps := by
  have hmem (o : Object) : o ∈ os.mergeSort (fun a b => decide (a.id ≤ b.id)) ↔ o ∈ os := List.mem_mergeSort
  have hsorted : ∀ o ∈ os.mergeSort (fun a b => decide (a.id ≤ b.id)), o.IsProper := fun o ho =>
    hos o ((hmem o).mp ho)
  have hbody := carries_section hisa hsorted
  rw [Graph.insertionEdits]
  split
  next s hs =>
    have hs := (List.mem_filter.mp (List.mem_of_head? hs)).1
    constructor
    · intro e he
      obtain ⟨o, ho, rfl⟩ := List.mem_map.mp he
      refine ⟨?_, rfl, [o], carries_tableLine (hsorted o ho) (isInlineKind isa), fun p hp => ?_⟩
      · simp only
        split
        next span hspan =>
          obtain ⟨m, -, hm⟩ := Option.bind_eq_some_iff.mp hspan
          exact h.between_span hm
        · exact h.between_end hs
      · rw [List.mem_singleton.mp hp, ← hmem]
        exact ho
    · intro o ho
      exact ⟨_, List.mem_map_of_mem ((hmem o).mpr ho), [o], carries_tableLine (hos o ho) (isInlineKind isa), by simp⟩
  · split
    next s hs =>
      have hs : s ∈ g.sections := (List.mem_filter.mp (List.mem_mergeSort.mp (List.mem_of_head? hs))).1
      have hputs := hbody.append (carries_gap gap_newline)
      rw [List.append_nil] at hputs
      refine ⟨fun e he => ?_, fun o ho => ⟨_, List.mem_singleton_self _, _, hputs, (hmem o).mpr ho⟩⟩
      obtain rfl := List.mem_singleton.mp he
      exact ⟨h.between_begin hs, rfl, _, hputs, fun o ho => (hmem o).mp ho⟩
    · have hputs := (carries_gap gap_newline).append hbody
      refine ⟨fun e he => ?_, fun o ho => ⟨_, List.mem_singleton_self _, _, hputs, (hmem o).mpr ho⟩⟩
      obtain rfl := List.mem_singleton.mp he
      refine ⟨?_, rfl, _, hputs, fun o ho => (hmem o).mp ho⟩
      rw [h.lastLineStart_eq]
      exact Layout.between_of_split (List.append_nil _).symm

end Insertions

end Xcode
end ModuleLink
