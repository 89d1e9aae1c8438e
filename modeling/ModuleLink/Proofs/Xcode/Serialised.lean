import Mathlib
import ModuleLink.Proofs.Xcode.Edits

/-!
The text that a changed graph is written as: the lines of the objects that nothing was done to, and entries for those
that were added or touched.  It holds the objects of the graph and no others.
-/

namespace ModuleLink
namespace Xcode

open Plist Text

/-! ## New objects by kind -/

/-- Objects by kind, as they come. -/
def grouped (os : List Object) : List (String × List Object) :=
  os.foldl (fun done o => Dict.assign o.isa (((done.lookup o.isa).getD []) ++ [o]) done) []

theorem grouped_append_singleton (os : List Object) (o : Object) :
    grouped (os ++ [o]) = Dict.assign o.isa ((((grouped os).lookup o.isa).getD []) ++ [o]) (grouped os) := by
  rw [grouped, List.foldl_append]
  rfl

theorem lookup_grouped (os : List Object) (isa : String) :
    ((grouped os).lookup isa).getD [] = os.filter fun o => o.isa == isa := by
  induction os using List.reverseRecOn with
  | nil => rfl
  | append_singleton os o ih =>
    rw [grouped_append_singleton, List.filter_append]
    by_cases hisa : isa = o.isa
    · subst hisa
      rw [Dict.lookup_assign_self, Option.getD_some, ih, List.filter_cons_of_pos (by simp), List.filter_nil]
    · rw [Dict.lookup_assign_of_ne hisa, ih, List.filter_cons_of_neg (by simpa using Ne.symm hisa), List.filter_nil,
        List.append_nil]

theorem nodup_grouped (os : List Object) : ((grouped os).map (·.1)).Nodup := by
  induction os using List.reverseRecOn with
  | nil => exact List.nodup_nil
  | append_singleton os o ih =>
    rw [grouped_append_singleton]
    exact Dict.nodup_assign _ _ ih

theorem ne_nil_of_mem_grouped {os group : List Object} {isa : String} (h : (isa, group) ∈ grouped os) : group ≠ [] := by
  induction os using List.reverseRecOn with
  | nil => contradiction
  | append_singleton os o ih =>
    rw [grouped_append_singleton] at h
    rcases Dict.mem_assign h with heq | h
    · rw [(Prod.mk.inj heq).2]
      simp
    · exact ih h

theorem eq_of_mem_grouped {os group : List Object} {isa : String} (h : (isa, group) ∈ grouped os) :
    group = os.filter fun o => o.isa == isa := by
  rw [← lookup_grouped, Dict.lookup_of_mem (nodup_grouped os) h]
  rfl

theorem exists_mem_grouped {os : List Object} {o : Object} (h : o ∈ os) :
    ∃ group, (o.isa, group) ∈ grouped os ∧ o ∈ group := by
  have hmem : o ∈ ((grouped os).lookup o.isa).getD [] := by
    rw [lookup_grouped]
    exact List.mem_filter.mpr ⟨h, beq_self_eq_true _⟩
  cases hlookup : (grouped os).lookup o.isa with
  | none =>
    rw [hlookup] at hmem
    contradiction
  | some group =>
    rw [hlookup] at hmem
    exact ⟨group, Dict.mem_of_lookup hlookup, hmem⟩

/-! ## Edits -/

section Written

variable {L : Layout} {g₀ g : Graph} {o : Object} {e : Edit} {id : String}

theorem mem_edits : e ∈ g.edits ↔ (∃ s ∈ g.sections, g.isDropped s = true ∧ g.dropSection s = e) ∨
    e ∈ g.removalEdits ∨ e ∈ g.changeEdits ∨ ∃ group ∈ g.addedObjects, e ∈ g.insertionEdits group.1 group.2 := by
  simp only [Graph.edits, List.mem_append, List.mem_map, List.mem_filter, List.mem_flatMap, List.mem_mergeSort,
    or_assoc, and_assoc]

theorem mem_removalEdits (h : e ∈ g.removalEdits) :
    ∃ id ∈ g.removed, ∃ span, g.spans.lookup id = some span ∧
      id ∉ (g.sections.filter g.isDropped).flatMap Section.members ∧ e = ⟨span.start, span.stop, []⟩ := by
  obtain ⟨id, hid, he⟩ := List.mem_filterMap.mp h
  cases hspan : g.spans.lookup id with
  | none =>
    simp only [hspan] at he
    contradiction
  | some span =>
    simp only [hspan] at he
    split at he
    · contradiction
    next hswallowed =>
      exact ⟨id, hid, span, hspan, fun hin => hswallowed (List.contains_iff_mem.mpr hin), (Option.some.inj he).symm⟩

theorem mem_changeEdits (h : e ∈ g.changeEdits) :
    ∃ id ∈ g.touched, ∃ span o, g.spans.lookup id = some span ∧ g.get? id = some o ∧ id ∉ g.removed ∧
      e = ⟨span.start, span.stop, renderObject o span.indent span.inline span.wholeLine⟩ := by
  obtain ⟨id, hid, he⟩ := List.mem_filterMap.mp h
  cases hspan : g.spans.lookup id with
  | none =>
    simp only [hspan] at he
    contradiction
  | some span =>
    cases hget : g.get? id with
    | none =>
      simp only [hspan, hget] at he
      contradiction
    | some o =>
      simp only [hspan, hget] at he
      split at he
      · contradiction
      next hremoved =>
        exact ⟨id, hid, span, o, hspan, hget, fun hin => hremoved (List.contains_iff_mem.mpr hin),
          (Option.some.inj he).symm⟩

/-- New objects are objects of the graph, in groups of one kind. -/
theorem Follows.mem_addedObjects (h : Follows g₀ g) {group : String × List Object} (hgroup : group ∈ g.addedObjects) :
    (∀ o ∈ group.2, o ∈ g.objects) ∧ IsKindName group.1 := by
  have hfilter := eq_of_mem_grouped hgroup
  have hmem : ∀ o ∈ group.2, o ∈ g.objects ∧ o.id ∈ g.added ∧ o.isa = group.1 := by
    intro o ho
    rw [hfilter] at ho
    obtain ⟨ho, hisa⟩ := List.mem_filter.mp ho
    obtain ⟨id, hid, hget⟩ := List.mem_filterMap.mp ho
    obtain ⟨ho, rfl⟩ := Graph.get?_mem hget
    exact ⟨ho, hid, eq_of_beq hisa⟩
  obtain ⟨o, ho⟩ := List.exists_mem_of_ne_nil _ (ne_nil_of_mem_grouped hgroup)
  obtain ⟨ho, hadded, hisa⟩ := hmem o ho
  exact ⟨fun o ho => (hmem o ho).1, hisa ▸ h.kind o ho hadded⟩

/-- Every edit starts and stops between lines, and puts in objects of the graph if any. -/
theorem Follows.fits_edits (h : Follows g₀ g) (hlaid : Laid L g₀) (he : e ∈ g.edits) :
    e.Fits L.head.length (L.cells.map Cell.text) ∧ ∃ os, Puts e os ∧ ∀ o ∈ os, o ∈ g.objects := by
  have hlaid := h.laid hlaid
  rcases mem_edits.mp he with ⟨s, hs, -, rfl⟩ | he | he | ⟨group, hgroup, he⟩
  · obtain ⟨as, cs, bs, hcells, hdrop, -⟩ := hlaid.exists_dropped hs
    rw [hdrop]
    refine ⟨⟨Layout.between_of_split hcells, ?_, Nat.le_add_right _ _⟩, [], carries_gap .nil, by simp⟩
    have hstop := Layout.between_of_split (hcells.trans (List.append_assoc as cs bs).symm)
    rwa [textOf_append, List.length_append, ← Nat.add_assoc] at hstop
  · obtain ⟨id, -, span, hspan, -, rfl⟩ := mem_removalEdits he
    obtain ⟨o, inline, n, hat, -, rfl⟩ := hlaid.spans id span hspan
    exact ⟨⟨hat.between_start, hat.between_stop, Nat.le_add_right _ _⟩, [], carries_gap .nil, by simp⟩
  · obtain ⟨id, -, span, p, hspan, hget, -, rfl⟩ := mem_changeEdits he
    obtain ⟨o, inline, n, hat, -, rfl⟩ := hlaid.spans id span hspan
    have hp := (Graph.get?_mem hget).1
    refine ⟨⟨hat.between_start, hat.between_stop, Nat.le_add_right _ _⟩, [p], ?_, ?_⟩
    · exact carries_renderObject (h.proper p hp) (isBlankText_iff.mp o.indent_isIndent.blank) inline true
    · intro q hq
      rw [List.mem_singleton.mp hq]
      exact hp
  · obtain ⟨hin, hkind⟩ := h.mem_addedObjects hgroup
    have hinsert := hlaid.insertionEdits hkind fun o ho => h.proper o (hin o ho)
    obtain ⟨hstart, hstop, os, hputs, hos⟩ := hinsert.1 e he
    exact ⟨⟨hstart, hstop ▸ hstart, hstop.ge⟩, os, hputs, fun o ho => hin o (hos o ho)⟩

/-- An object that was added is put in. -/
theorem Follows.exists_puts_of_added (h : Follows g₀ g) (hlaid : Laid L g₀) (ho : o ∈ g.objects)
    (hadded : o.id ∈ g.added) : ∃ e ∈ g.edits, ∃ os, Puts e os ∧ o ∈ os := by
  have hfound : o ∈ g.added.filterMap g.get? :=
    List.mem_filterMap.mpr ⟨o.id, hadded, Graph.get?_of_mem h.nodup ho⟩
  obtain ⟨group, hgroup, hin⟩ := exists_mem_grouped hfound
  obtain ⟨hobjects, hkind⟩ := h.mem_addedObjects hgroup
  obtain ⟨e, he, hputs⟩ := ((h.laid hlaid).insertionEdits hkind fun p hp => h.proper p (hobjects p hp)).2 o hin
  exact ⟨e, mem_edits.mpr (.inr (.inr (.inr ⟨_, hgroup, he⟩))), hputs⟩

theorem Layout.At.mem_objects {l : ObjectLines} {n : Nat} (hat : L.At n (.part (.object l))) : l ∈ L.objects := by
  obtain ⟨as, bs, hcells, -⟩ := hat
  exact Layout.mem_objects.mpr (by rw [hcells]; simp)

/-- The span of an object is its lines. -/
theorem Laid.exists_span (h : Laid L g) {l : ObjectLines} {n : Nat} (hat : L.At n (.part (.object l))) :
    ∃ inline, g.spans.lookup l.id = some ⟨n, n + l.text.length, l.indent, true, inline⟩ := by
  obtain ⟨span, hspan⟩ := h.spans_some l hat.mem_objects
  obtain ⟨l', inline, n', hat', hid, rfl⟩ := h.spans l.id span hspan
  obtain rfl := Layout.eq_of_id_eq hat'.mem_objects hat.mem_objects hid
  obtain rfl := hat.eq_of_id hat' rfl
  exact ⟨inline, hspan⟩

theorem covers_lines (l : ObjectLines) (n : Nat) (text : List Char) :
    Edit.Covers ⟨n, n + l.text.length, text⟩ n :=
  ⟨Nat.le_refl n, Nat.lt_add_of_pos_right (Cell.part (.object l)).text_length_pos⟩

/-- The lines of an object that was touched make place for it, if it was not removed. -/
theorem Follows.exists_change (h : Follows g₀ g) (hlaid : Laid L g₀) {l : ObjectLines} {n : Nat}
    (hat : L.At n (.part (.object l))) (ho : o ∈ g.objects) (hid : o.id = l.id) (htouched : l.id ∈ g.touched)
    (hremoved : l.id ∉ g.removed) : ∃ e ∈ g.edits, Puts e [o] ∧ e.Covers n := by
  obtain ⟨inline, hspan⟩ := (h.laid hlaid).exists_span hat
  have hget : g.get? l.id = some o := hid ▸ Graph.get?_of_mem h.nodup ho
  have hmem : (⟨n, n + l.text.length, renderObject o l.indent inline true⟩ : Edit) ∈ g.changeEdits := by
    refine List.mem_filterMap.mpr ⟨l.id, htouched, ?_⟩
    simp only [hspan, hget]
    rw [if_neg (by simpa using hremoved)]
  exact ⟨_, mem_edits.mpr (.inr (.inr (.inl hmem))),
    carries_renderObject (h.proper o ho) (isBlankText_iff.mp l.indent_isIndent.blank) inline true,
    covers_lines l n _⟩

/-- The lines of an object that was removed are taken away, alone or with their section. -/
theorem Laid.exists_removal (h : Laid L g) {l : ObjectLines} {n : Nat} (hat : L.At n (.part (.object l)))
    (hremoved : l.id ∈ g.removed) : ∃ e ∈ g.edits, e.Covers n ∧ e.text = [] := by
  obtain ⟨inline, hspan⟩ := h.exists_span hat
  by_cases hin : l.id ∈ (g.sections.filter g.isDropped).flatMap Section.members
  · obtain ⟨s, hs, hmember⟩ := List.mem_flatMap.mp hin
    obtain ⟨hs, hdropped⟩ := List.mem_filter.mp hs
    obtain ⟨as, cs, bs, -, hdrop, hbegin, hstop, -⟩ := h.exists_dropped hs
    -- The object is in the section, whose lines are all taken away.
    obtain ⟨as', k, bs', hblocks, hsection, hmembers⟩ := h.sections s hs
    obtain ⟨l', hl', hid⟩ := (hmembers l.id).mp hmember
    obtain ⟨n', hat', hfrom, hto⟩ := L.exists_at_of_kind hblocks hl'
    obtain rfl := hat'.eq_of_id hat hid
    have hfrom' : s.beginStart ≤ n' := by
      rw [hsection]
      simp only [Kind.sectionAt] at hfrom ⊢
      omega
    have hto' : n' + l'.text.length ≤ s.endStop := by
      rw [hsection]
      simp only [Kind.sectionAt] at hto ⊢
      omega
    have hpos := (Cell.part (.object l')).text_length_pos
    refine ⟨_, mem_edits.mpr (.inl ⟨s, hs, hdropped, rfl⟩), ?_⟩
    rw [hdrop]
    have hlen : (Cell.part (.object l')).text.length = l'.text.length := rfl
    refine ⟨?_, rfl⟩
    constructor <;> (simp only; omega)
  · have hmem : (⟨n, n + l.text.length, []⟩ : Edit) ∈ g.removalEdits := by
      refine List.mem_filterMap.mpr ⟨l.id, hremoved, ?_⟩
      simp only [hspan]
      rw [if_neg (by rw [List.contains_iff_mem]; exact hin)]
    exact ⟨_, mem_edits.mpr (.inr (.inl hmem)), covers_lines l n [], rfl⟩

/-- No edit takes away the lines of an object that was neither removed nor touched. -/
theorem Follows.not_covers (h : Follows g₀ g) (hlaid : Laid L g₀) {l : ObjectLines} {n : Nat} (hat : L.At n (.part (.object l)))
    (hremoved : l.id ∉ g.removed) (htouched : l.id ∉ g.touched) (he : e ∈ g.edits) : ¬ e.Covers n := by
  have hlaid := h.laid hlaid
  have hspan : ∀ id span text, g.spans.lookup id = some span → Edit.Covers ⟨span.start, span.stop, text⟩ n →
      id = l.id := by
    intro id span text hspan hcovers
    obtain ⟨l', inline, n', hat', hid, rfl⟩ := hlaid.spans id span hspan
    obtain ⟨-, hcell⟩ := hat'.unique hat hcovers.1 hcovers.2
    injection hcell with hpart
    injection hpart with hlines
    rw [← hid, hlines]
  rcases mem_edits.mp he with ⟨s, hs, hdropped, rfl⟩ | he | he | ⟨group, hgroup, he⟩
  · obtain ⟨as, cs, bs, hcells, hdrop, -, -, hmembers, -⟩ := hlaid.exists_dropped hs
    intro hcovers
    rw [hdrop] at hcovers
    have hmember := hmembers l (hat.mem_of_between hcells hcovers.1 hcovers.2)
    simp only [Graph.isDropped, Bool.and_eq_true, List.all_eq_true] at hdropped
    exact hremoved (List.contains_iff_mem.mp (hdropped.1.2 _ hmember))
  · obtain ⟨id, hid, span, hlookup, -, rfl⟩ := mem_removalEdits he
    exact fun hcovers => hremoved (hspan id span _ hlookup hcovers ▸ hid)
  · obtain ⟨id, hid, span, p, hlookup, -, -, rfl⟩ := mem_changeEdits he
    exact fun hcovers => htouched (hspan id span _ hlookup hcovers ▸ hid)
  · obtain ⟨hin, hkind⟩ := h.mem_addedObjects hgroup
    obtain ⟨-, hstop, -⟩ := (hlaid.insertionEdits hkind fun o ho => h.proper o (hin o ho)).1 e he
    exact fun hcovers => absurd (Nat.lt_of_le_of_lt hcovers.1 (hstop ▸ hcovers.2)) (Nat.lt_irrefl _)

/-! ## The text -/

/-- What the lines of an object say. -/
theorem ObjectLines.carries (l : ObjectLines) : Carries l.text [l.object.tidy.pair] := by
  have htidy : l.fields.tidy = l.fields := by
    obtain ⟨body, hreads⟩ := l.reads
    have hvalue : (Value.dict l.fields).tidy = .dict l.fields := (hreads.tidy _ (List.mem_singleton_self _)).2
    rw [Value.tidy_dict] at hvalue
    exact Value.dict.inj hvalue
  have hobject : l.object.tidy = l.object := congrArg (Object.mk l.object.id · l.object.comment) htidy
  rw [hobject, l.pair_object]
  exact ((carries_gap l.indent_isIndent.gap).append (l.isEntry.carries)).append (carries_gap l.tail_isIndent.gap)
    |>.append (carries_gap gap_newline)

theorem Cell.eq_of_object? {c : Cell} {l : ObjectLines} (h : c.object? = some l) : c = .part (.object l) := by
  cases c with
  | marker => contradiction
  | part p =>
    cases p with
    | filler => contradiction
    | object l' => rw [show l' = l from Option.some.inj h]

theorem Cell.carries {c : Cell} (hc : c ∈ L.cells) :
    Carries c.text (c.object?.toList.map fun l => l.object.tidy.pair) := by
  cases c with
  | marker opens isa => exact carries_gap (gap_markerLine (isWord_of_marker_mem hc) opens)
  | part p =>
    cases p with
    | filler f => exact carries_gap f.gap
    | object l => exact l.carries

/-- The text that is written is made of what the edits put in and of lines that no edit took away; these are lines of
objects that nothing was done to. -/
theorem Follows.exists_pieces (h : Follows g₀ g) (hlaid : Laid L g₀)
    (hread : g₀.objects = L.objects.map ObjectLines.object) {t : List Char} (ht : applyEdits g.text g.edits = .ok t) :
    ∃ pieces : List (List Char), t = L.head ++ pieces.flatten ++ L.closing ∧ (∀ e ∈ g.edits, e.text ∈ pieces) ∧
      (∀ p ∈ pieces, ∃ os : List Object, Carries p (os.map fun o => o.tidy.pair) ∧ ∀ o ∈ os, o ∈ g.objects) ∧
      ∀ l ∈ L.objects, l.id ∉ g.removed → l.id ∉ g.touched → l.text ∈ pieces := by
  have hnonempty : ∀ c ∈ L.cells.map Cell.text, c ≠ [] := by
    intro c hc
    obtain ⟨c, -, rfl⟩ := List.mem_map.mp hc
    exact c.text_ne_nil
  rw [(h.laid hlaid).text, Layout.text, textOf] at ht
  obtain ⟨pieces, rfl, hpieces⟩ := exists_pieces_of_applyEdits hnonempty (fun e he => (h.fits_edits hlaid he).1) ht
  refine ⟨pieces, rfl, hpieces.made, fun p hp => ?_, fun l hl hremoved htouched => ?_⟩
  · rcases hpieces.origin p hp with ⟨e, he, rfl⟩ | ⟨c, d, hcut, -, huncovered⟩
    · exact (h.fits_edits hlaid he).2
    · obtain ⟨as, bs', hcells, rfl, hbs⟩ := List.map_eq_append_iff.mp hcut
      obtain ⟨cell, bs, rfl, rfl, rfl⟩ := List.map_eq_cons_iff.mp hbs
      have hcell : cell ∈ L.cells := by rw [hcells]; simp
      refine ⟨cell.object?.toList.map ObjectLines.object, ?_, fun o ho => ?_⟩
      · rw [List.map_map]
        exact Cell.carries hcell
      · obtain ⟨l, hl, rfl⟩ := List.mem_map.mp ho
        obtain rfl := Cell.eq_of_object? (Option.mem_toList.mp hl)
        have hat : L.At (L.head.length + (textOf as).length) (.part (.object l)) := ⟨as, bs, hcells, rfl⟩
        -- The lines would be taken away if the object had been removed or touched.
        have hremoved : l.id ∉ g.removed := fun hin => by
          obtain ⟨e, he, hcovers, -⟩ := (h.laid hlaid).exists_removal hat hin
          exact huncovered e he hcovers
        obtain ⟨-, q, hq, hid, hsame⟩ := h.kept l.object (hread ▸ List.mem_map_of_mem hat.mem_objects) hremoved
        have htouched : l.id ∉ g.touched := fun hin => by
          obtain ⟨e, he, -, hcovers⟩ := h.exists_change hlaid hat hq hid hin hremoved
          exact huncovered e he hcovers
        rw [← hsame htouched]
        exact hq
  · obtain ⟨n, hat⟩ := Layout.exists_at hl
    obtain ⟨as, bs, hcells, rfl⟩ := id hat
    refine hpieces.kept (as.map Cell.text) l.text (bs.map Cell.text) ?_ (Nat.zero_le _) fun e he => ?_
    · rw [hcells, List.map_append, List.map_cons]
      rfl
    · exact h.not_covers hlaid hat hremoved htouched he

/-- What is written for every object of the graph is one of the pieces. -/
theorem Follows.exists_piece (h : Follows g₀ g) (hlaid : Laid L g₀)
    (hread : g₀.objects = L.objects.map ObjectLines.object) {pieces : List (List Char)}
    (hmade : ∀ e ∈ g.edits, e.text ∈ pieces)
    (hkept : ∀ l ∈ L.objects, l.id ∉ g.removed → l.id ∉ g.touched → l.text ∈ pieces) (ho : o ∈ g.objects) :
    ∃ p ∈ pieces, ∃ os : List Object, Carries p (os.map fun o => o.tidy.pair) ∧ o ∈ os := by
  rcases h.origin o ho with hadded | ⟨hin, hremoved⟩
  · obtain ⟨e, he, os, hputs, hos⟩ := h.exists_puts_of_added hlaid ho hadded
    exact ⟨e.text, hmade e he, os, hputs, hos⟩
  · rw [Graph.ids, hread, List.map_map] at hin
    obtain ⟨l, hl, hid⟩ := List.mem_map.mp hin
    have hid : o.id = l.id := hid.symm
    rw [hid] at hremoved
    by_cases htouched : l.id ∈ g.touched
    · obtain ⟨n, hat⟩ := Layout.exists_at hl
      obtain ⟨e, he, hputs, -⟩ := h.exists_change hlaid hat ho hid htouched hremoved
      exact ⟨e.text, hmade e he, [o], hputs, by simp⟩
    · obtain ⟨-, q, hq, hqid, hsame⟩ := h.kept l.object (hread ▸ List.mem_map_of_mem hl) hremoved
      obtain rfl := List.inj_on_of_nodup_map h.nodup hq ho (hqid.trans hid.symm)
      refine ⟨l.text, hkept l hl hremoved htouched, [l.object], l.carries, ?_⟩
      rw [hsame htouched]
      exact List.mem_singleton_self _

/-- The table that is written holds the objects of the graph and no others. -/
theorem Follows.exists_pairs (h : Follows g₀ g) (hlaid : Laid L g₀)
    (hread : g₀.objects = L.objects.map ObjectLines.object) {t : List Char} (ht : applyEdits g.text g.edits = .ok t) :
    ∃ table ks, t = L.head ++ table ++ L.closing ∧ Carries table ks ∧ (∀ k, k ∈ ks ↔ ∃ o ∈ g.objects, k = o.tidy.pair) ∧
      ∀ l ∈ L.objects, l.id ∉ g.removed → l.id ∉ g.touched → l.text <:+: table := by
  obtain ⟨pieces, rfl, hmade, hpieces, hkept⟩ := h.exists_pieces hlaid hread ht
  obtain ⟨ks, hks, hfrom, hto⟩ := carries_flatten fun p hp => by
    obtain ⟨os, hos, -⟩ := hpieces p hp
    exact ⟨_, hos⟩
  refine ⟨pieces.flatten, ks, rfl, hks, fun k => ⟨fun hk => ?_, ?_⟩, fun l hl hremoved htouched => ?_⟩
  · obtain ⟨p, hp, ls, hls, hin⟩ := hfrom k hk
    obtain ⟨os, hos, hobjects⟩ := hpieces p hp
    rw [hls.unique hos] at hin
    obtain ⟨o, ho, rfl⟩ := List.mem_map.mp hin
    exact ⟨o, hobjects o ho, rfl⟩
  · rintro ⟨o, ho, rfl⟩
    obtain ⟨p, hp, os, hos, hin⟩ := h.exists_piece hlaid hread hmade hkept ho
    obtain ⟨ls, hls, hsub⟩ := hto p hp
    exact hsub _ (hls.unique hos ▸ List.mem_map_of_mem hin)
  · obtain ⟨as, bs, hpieces⟩ := List.append_of_mem (hkept l hl hremoved htouched)
    exact ⟨as.flatten, bs.flatten, by rw [hpieces]; simp⟩

end Written

end Xcode
end ModuleLink
