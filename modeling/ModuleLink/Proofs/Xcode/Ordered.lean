import Mathlib
import ModuleLink.Proofs.Plist.Lines
import ModuleLink.Proofs.Xcode.Groups
import ModuleLink.Proofs.Xcode.Places

/-!
Project texts in order: the sections in the order of their kinds with a blank line between each two, and in each of them
its objects in the order of their ids, with no blank line.
-/

namespace ModuleLink
namespace Xcode

open Plist

/-! ## Lines of an object -/

namespace Object

variable {o : Object}

/-- The lines of a new object. -/
def lines (o : Object) : List Char := renderObject o tableIndent (isInlineKind o.isa) true

/-- The object takes one line if it is written on one. -/
def OnLine (o : Object) : Prop := '\n' ∉ renderObject o [] true false

theorem isa_tidy (o : Object) : o.tidy.isa = o.isa := by rw [isa, isa, Graph.text?_tidy]

end Object

/-! ### Lines that start with a tab -/

theorem head?_of_mem_linesFrom {cs : List Char} (h : Indented cs) (hhead : cs.head? = some '\t') (offset : Nat) :
    ∀ line ∈ (linesFrom offset (cs ++ ['\n'])).map (·.2), line.head? = some '\t' := by
  induction hn : cs.length using Nat.strong_induction_on generalizing cs offset with
  | h n ih =>
    by_cases hmem : '\n' ∈ cs
    · obtain ⟨line, rest, rfl, hline⟩ := List.eq_append_cons_of_mem hmem
      have hrest : rest.head? = some '\t' := h line rest rfl
      have hindented : Indented rest := fun u v hsplit =>
        h (line ++ '\n' :: u) v (by rw [hsplit, List.append_assoc]; rfl)
      rw [List.append_assoc, List.cons_append, linesFrom_line hline]
      intro l hl
      rcases List.mem_cons.mp hl with rfl | hl
      · cases l with
        | nil => exact absurd (Option.some.inj hhead) (by decide)
        | cons c l => exact hhead
      · refine ih rest.length ?_ hindented hrest _ rfl l hl
        rw [← hn, List.length_append, List.length_cons]
        omega
    · rw [linesFrom_line hmem, linesFrom.eq_def]
      intro l hl
      obtain rfl := List.mem_singleton.mp hl
      exact hhead

/-- Lines that start with a tab are no markers. -/
theorem markers_of_indented {cs : List Char} (h : Indented cs) (hhead : cs.head? = some '\t') :
    markers (cs ++ ['\n']) = [] := by
  rw [markers_eq, markersFrom_eq_nil_iff]
  intro line hline
  refine markerOf?_of_head ?_
  rw [head?_of_mem_linesFrom h hhead 0 line hline]
  decide

/-- An object whose scalars and comments take one line each has no line like a marker. -/
theorem Object.IsProper.markers_renderObject {o : Object} (h : o.IsProper) (honLine : o.OnLine) (inline : Bool)
    {indent : List Char} (hindent : IsIndent indent) (htab : indent.head? = some '\t') :
    markers (renderObject o indent inline true) = [] := by
  have hkey : '\n' ∉ renderScalar ⟨o.id, o.comment⟩ := fun hin => honLine (by rw [renderObject]; simp [hin])
  have hfields : '\n' ∉ renderInline (.dict o.fields) := fun hin => honLine (by rw [renderObject]; simp [hin])
  have hvalue : Indented (if inline then renderInline (.dict o.fields) else renderBlock indent (.dict o.fields)) := by
    split
    · exact indented_of_notMem hfields
    · exact indented_renderBlock h.fields hfields hindent.line htab
  have hlines : renderObject o indent inline true = indent ++ (renderScalar ⟨o.id, o.comment⟩ ++ " = ".toList ++
      (if inline then renderInline (.dict o.fields) else renderBlock indent (.dict o.fields)) ++ ";".toList) ++ ['\n'] := by
    rw [renderObject]
    simp only [List.append_assoc, if_true]
  rw [hlines]
  refine markers_of_indented ?_ (by rw [List.head?_append, htab]; rfl)
  exact (indented_of_notMem hindent.line).append ((((indented_of_notMem hkey).append
    (indented_of_notMem (by decide))).append hvalue).append (indented_of_notMem (by decide)))

/-! ### Objects on their lines -/

theorem ObjectLines.text_ofObject {o : Object} (ho : o.IsProper) (inline : Bool) {indent : List Char}
    (hindent : IsIndent indent) (hunmarked : markers (renderObject o indent inline true) = []) :
    (ObjectLines.ofObject o ho inline indent hindent hunmarked).text = renderObject o indent inline true := by
  rw [ObjectLines.text, ObjectLines.ofObject, renderObject]
  simp only [List.append_assoc, List.append_nil, if_true]

theorem ObjectLines.object_ofObject {o : Object} (ho : o.IsProper) (inline : Bool) {indent : List Char}
    (hindent : IsIndent indent) (hunmarked : markers (renderObject o indent inline true) = []) :
    (ObjectLines.ofObject o ho inline indent hindent hunmarked).object = o.tidy := by
  show Object.mk (Scalar.value ⟨o.id, o.comment⟩) o.fields.tidy o.comment = o.tidy
  rw [ho.id.value]
  rfl

/-! ## Sections -/

/-- No line is blank. -/
def HasNoBlankLine (cs : List Char) : Prop := ∀ line ∈ (linesFrom 0 cs).map (·.2), Text.isBlankText line = false

/-- The section holds objects in the order of their ids, and no blank line between them. -/
structure Kind.IsOrdered (k : Kind) : Prop where
  filled : k.objects ≠ []
  sorted : (k.objects.map ObjectLines.id).Pairwise (· < ·)
  tight : ∀ f, .filler f ∈ k.parts → HasNoBlankLine f.text

/-- An empty line. -/
def blank : Filler where
  text := ['\n']
  gap := gap_newline
  lines := ⟨[], rfl⟩
  single := .inl rfl
  unmarked := by decide +kernel

theorem eq_blank {f : Filler} (h : f.text = ['\n']) : f = blank := by
  obtain ⟨text, _, _, _, _⟩ := f
  obtain rfl : text = ['\n'] := h
  rfl

/-- Sections with a blank line between each two. -/
def separated (ks : List Kind) : List Block := (ks.map Block.kind).intersperse (.filler blank)

theorem separated_cons (k : Kind) {ks : List Kind} (h : ks ≠ []) :
    separated (k :: ks) = .kind k :: .filler blank :: separated ks := by
  obtain ⟨k', ks, rfl⟩ := List.exists_cons_of_ne_nil h
  rfl

theorem kindsIn_fillers (fs : List Filler) : kindsIn (fs.map .filler) = [] := by
  induction fs with
  | nil => rfl
  | cons f fs ih => exact ih

theorem kindsIn_separated (ks : List Kind) : kindsIn (separated ks) = ks := by
  induction ks with
  | nil => rfl
  | cons k ks ih =>
    cases ks with
    | nil => rfl
    | cons k' ks => exact congrArg (k :: ·) ih

theorem objectsIn_cellsOf (bs : List Block) : objectsIn (cellsOf bs) = (kindsIn bs).flatMap Kind.objects := by
  induction bs with
  | nil => rfl
  | cons b bs ih =>
    rw [cellsOf_cons, objectsIn_append, ih]
    cases b with
    | filler f => rfl
    | kind k => exact congrArg (· ++ _) k.objectsIn_cells

theorem mem_objects_of_kind {L : Layout} {k : Kind} {l : ObjectLines} (hk : k ∈ kindsIn L.blocks) (hl : l ∈ k.objects) :
    l ∈ L.objects := by
  rw [Layout.objects, Layout.cells, objectsIn_cellsOf]
  exact List.mem_flatMap.mpr ⟨k, hk, hl⟩

/-- No two objects of a section have one id. -/
theorem nodup_ids_of_kind {L : Layout} {k : Kind} (hk : k ∈ kindsIn L.blocks) : (k.objects.map ObjectLines.id).Nodup := by
  have hnodup := L.ids_nodup
  rw [objectsIn_cellsOf, List.map_flatMap, List.nodup_flatMap] at hnodup
  exact hnodup.1 k hk

/-- The text of fillers. -/
def fillersText (fs : List Filler) : List Char := fs.flatMap Filler.text

theorem textOf_fillers (fs : List Filler) : textOf (cellsOf (fs.map .filler)) = fillersText fs := by
  induction fs with
  | nil => rfl
  | cons f fs ih =>
    rw [List.map_cons, cellsOf_cons, textOf_append, Block.textOf_cells_filler, ih]
    rfl

/-- The text of sections with a blank line between each two. -/
def kindsText (ks : List Kind) : List Char := textOf (cellsOf (separated ks))

theorem kindsText_singleton (k : Kind) : kindsText [k] = textOf k.cells := by
  rw [kindsText, separated]
  simp [cellsOf, Block.cells]

theorem kindsText_cons (k : Kind) {ks : List Kind} (h : ks ≠ []) :
    kindsText (k :: ks) = textOf k.cells ++ '\n' :: kindsText ks := by
  rw [kindsText, separated_cons k h, cellsOf_cons, cellsOf_cons, textOf_append, textOf_append,
    Block.textOf_cells_filler]
  rfl

/-- Sections in front of others. -/
theorem kindsText_append (new : List Kind) {ks : List Kind} (h : ks ≠ []) :
    kindsText (new ++ ks) = new.flatMap (fun k => textOf k.cells ++ ['\n']) ++ kindsText ks := by
  induction new with
  | nil => rfl
  | cons k new ih =>
    rw [List.cons_append, kindsText_cons k (by simp [h]), ih, List.flatMap_cons]
    simp only [List.append_assoc, List.cons_append, List.nil_append]

/-- Sections behind one. -/
theorem kindsText_cons_append (k : Kind) (new : List Kind) :
    kindsText (k :: new) = textOf k.cells ++ new.flatMap fun k => '\n' :: textOf k.cells := by
  induction new generalizing k with
  | nil => rw [kindsText_singleton, List.flatMap_nil, List.append_nil]
  | cons k' new ih => rw [kindsText_cons k (by simp), ih, List.flatMap_cons, List.cons_append]

/-! ## Texts -/

/-- The sections stand behind the lines of `lead`, in the order of their kinds, with a blank line between each two, and
each has objects.  If a blank line is in front of the first one, it is `gap`. -/
structure Layout.IsSpaced (L : Layout) (lead gap : List Filler) : Prop where
  blocks : L.blocks = (lead ++ gap).map .filler ++ separated (kindsIn L.blocks)
  gap : (gap = [blank] ∧ kindsIn L.blocks ≠ []) ∨ (gap = [] ∧ (kindsIn L.blocks ≠ [] → lead.getLast? ≠ some blank))
  sorted : ((kindsIn L.blocks).map Kind.isa).Pairwise (· < ·)
  filled : ∀ k ∈ kindsIn L.blocks, k.objects ≠ []

/-- The sections stand in order behind the lines of `lead`.  If a blank line is in front of the first one, it is `gap`. -/
structure Layout.IsOrdered (L : Layout) (lead gap : List Filler) : Prop where
  blocks : L.blocks = (lead ++ gap).map .filler ++ separated (kindsIn L.blocks)
  gap : (gap = [blank] ∧ kindsIn L.blocks ≠ []) ∨ (gap = [] ∧ (kindsIn L.blocks ≠ [] → lead.getLast? ≠ some blank))
  sorted : ((kindsIn L.blocks).map Kind.isa).Pairwise (· < ·)
  kinds : ∀ k ∈ kindsIn L.blocks, k.IsOrdered

namespace Layout

variable {L : Layout} {lead gap : List Filler}

/-- A text in order is one whose sections are in order. -/
theorem isOrdered_iff : L.IsOrdered lead gap ↔ L.IsSpaced lead gap ∧ ∀ k ∈ kindsIn L.blocks, k.IsOrdered :=
  ⟨fun h => ⟨⟨h.blocks, h.gap, h.sorted, fun k hk => (h.kinds k hk).filled⟩, h.kinds⟩,
    fun ⟨h, hkinds⟩ => ⟨h.blocks, h.gap, h.sorted, hkinds⟩⟩

theorem IsSpaced.text_eq (h : L.IsSpaced lead gap) :
    L.text = L.head ++ (fillersText (lead ++ gap) ++ kindsText (kindsIn L.blocks)) ++ L.closing := by
  rw [text, cells, h.blocks, cellsOf_append, textOf_append, textOf_fillers, ← h.blocks]
  rfl

/-- Sections make up a text between the same lines. -/
theorem exists_withKinds (L : Layout) {lead gap : List Filler} {ks : List Kind}
    (hgap : (gap = [blank] ∧ ks ≠ []) ∨ (gap = [] ∧ (ks ≠ [] → lead.getLast? ≠ some blank)))
    (hsorted : (ks.map Kind.isa).Pairwise (· < ·)) (hfilled : ∀ k ∈ ks, k.objects ≠ [])
    (hids : ((ks.flatMap Kind.objects).map ObjectLines.id).Nodup) :
    ∃ L' : Layout, L'.head = L.head ∧ L'.closing = L.closing ∧ kindsIn L'.blocks = ks ∧ L'.IsSpaced lead gap := by
  have hin : kindsIn ((lead ++ gap).map .filler ++ separated ks) = ks := by
    rw [kindsIn, List.filterMap_append]
    show kindsIn ((lead ++ gap).map .filler) ++ kindsIn (separated ks) = ks
    rw [kindsIn_fillers, kindsIn_separated, List.nil_append]
  obtain ⟨L', hhead, hclosing, hblocks⟩ : ∃ L' : Layout, L'.head = L.head ∧ L'.closing = L.closing ∧
      L'.blocks = (lead ++ gap).map .filler ++ separated ks := ⟨{ L with
    blocks := (lead ++ gap).map .filler ++ separated ks
    isas_nodup := by
      rw [hin]
      exact hsorted.imp fun {a b} hlt => ne_of_lt hlt
    ids_nodup := by
      rw [objectsIn_cellsOf, hin]
      exact hids }, rfl, rfl, rfl⟩
  exact ⟨L', hhead, hclosing, by rw [hblocks, hin],
    ⟨by rw [hblocks, hin], by rwa [hblocks, hin], by rwa [hblocks, hin], by rwa [hblocks, hin]⟩⟩

end Layout

end Xcode
end ModuleLink
