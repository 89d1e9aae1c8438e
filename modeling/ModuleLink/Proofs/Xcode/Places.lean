import Mathlib
import ModuleLink.Proofs.Xcode.Reload

/-!
The places of a text in Xcode layout, in their order: the spans of its objects, and its sections with the objects in
them.
-/

namespace ModuleLink
namespace Xcode

open Plist

variable {L : Layout} {g : Graph} {source : String} {offset : Nat}

/-! ## Spans -/

/-- The spans are those of the entries of the table, in their order. -/
theorem exists_spans (h : Graph.load source L.text = .ok g) : ∃ ms : List Member,
    g.spans = ms.map (fun m => (m.key.value, spanOf L.text m)) ∧ ms.map Member.pair = L.objects.map ObjectLines.pair ∧
    ∀ m ∈ ms, m.IsReadFromKey ∧ ∃ as o bs, L.cells = as ++ .part (.object o) :: bs ∧ m.pair = o.pair ∧
      m.opened = o.entry ++ (o.tail ++ '\n' :: (textOf bs ++ L.closing)) ∧
      m.closed = o.tail ++ '\n' :: (textOf bs ++ L.closing) := by
  obtain ⟨ms, root, hdocument, -, hpairs, hmembers⟩ := L.exists_members
  refine ⟨ms, ?_, hpairs, hmembers⟩
  have hkeys : (ms.map (·.key.value)).Nodup := Layout.map_key_value hpairs ▸ L.ids_nodup
  rw [spans_of_load h hdocument, spansOf, List.flatMap_singleton]
  exact Dict.foldl_assign_of_nodup (spanOf L.text) hkeys

/-- Spans are listed under the ids of the objects. -/
theorem map_fst_spans (h : Graph.load source L.text = .ok g) : g.spans.map (·.1) = L.objects.map ObjectLines.id := by
  obtain ⟨ms, hspans, hpairs, -⟩ := exists_spans h
  rw [hspans, List.map_map]
  exact Layout.map_key_value hpairs

/-! ## Sections -/

/-- Lists out of one that repeats nothing are the same if they hold the same. -/
theorem eq_of_sublists {α : Type} {l a b : List α} (hl : l.Nodup) (ha : a.Sublist l) (hb : b.Sublist l)
    (h : ∀ x, x ∈ a ↔ x ∈ b) : a = b := by
  induction l generalizing a b with
  | nil => rw [List.sublist_nil.mp ha, List.sublist_nil.mp hb]
  | cons c l ih =>
    obtain ⟨hc, hl⟩ := List.nodup_cons.mp hl
    rcases List.sublist_cons_iff.mp ha with hsub | ⟨a', rfl, hsub⟩ <;>
      rcases List.sublist_cons_iff.mp hb with hsub' | ⟨b', rfl, hsub'⟩
    · exact ih hl hsub hsub' h
    · exact absurd (hsub.subset ((h c).mpr (by simp))) hc
    · exact absurd (hsub'.subset ((h c).mp (by simp))) hc
    · refine congrArg (c :: ·) (ih hl hsub hsub' fun x => ?_)
      have hx := h x
      rw [List.mem_cons, List.mem_cons] at hx
      constructor
      · intro hin
        exact (hx.mp (.inr hin)).resolve_left fun heq => hc (heq ▸ hsub.subset hin)
      · intro hin
        exact (hx.mpr (.inr hin)).resolve_left fun heq => hc (heq ▸ hsub'.subset hin)

/-- The section of a kind with the objects in it. -/
def Kind.section (k : Kind) (offset : Nat) : Section :=
  { k.sectionAt offset with members := k.objects.map ObjectLines.id }

/-- The sections of blocks, when the blocks start at `offset`. -/
def sectionsIn : (offset : Nat) → List Block → List Section
  | _, [] => []
  | offset, .filler f :: bs => sectionsIn (offset + f.text.length) bs
  | offset, .kind k :: bs => k.section offset :: sectionsIn (offset + (textOf k.cells).length) bs

theorem sectionsIn_append (offset : Nat) (as bs : List Block) :
    sectionsIn offset (as ++ bs) = sectionsIn offset as ++ sectionsIn (offset + (textOf (cellsOf as)).length) bs := by
  induction as generalizing offset with
  | nil => rfl
  | cons a as ih =>
    cases a with
    | filler f =>
      rw [List.cons_append, sectionsIn, sectionsIn, ih, cellsOf_cons, textOf_append, List.length_append,
        Block.textOf_cells_filler, Nat.add_assoc]
    | kind k =>
      rw [List.cons_append, sectionsIn, sectionsIn, ih, cellsOf_cons, textOf_append, List.length_append,
        List.cons_append, Nat.add_assoc]
      rfl

theorem map_sectionsAt_eq {members : Section → List String} {bs : List Block} (offset : Nat)
    (h : ∀ as k cs, bs = as ++ .kind k :: cs → members (k.sectionAt (offset + (textOf (cellsOf as)).length)) =
      k.objects.map ObjectLines.id) :
    (sectionsAt offset bs).map (fun s => { s with members := members s }) = sectionsIn offset bs := by
  induction bs generalizing offset with
  | nil => rfl
  | cons b bs ih =>
    have hlater : ∀ as k cs, bs = as ++ .kind k :: cs →
        members (k.sectionAt (offset + (textOf b.cells).length + (textOf (cellsOf as)).length)) =
          k.objects.map ObjectLines.id := by
      rintro as k cs rfl
      rw [← h (b :: as) k cs rfl, cellsOf_cons, textOf_append, List.length_append, Nat.add_assoc]
    cases b with
    | filler f =>
      rw [sectionsAt, sectionsIn]
      rw [Block.textOf_cells_filler] at hlater
      exact ih _ hlater
    | kind k =>
      have hk : members (k.sectionAt offset) = k.objects.map ObjectLines.id := by simpa [cellsOf] using h [] k bs rfl
      rw [sectionsAt, sectionsIn, List.map_cons, hk]
      exact congrArg (k.section offset :: ·) (ih _ hlater)

theorem sectionAt_mem (offset : Nat) (as : List Block) (k : Kind) (cs : List Block) :
    k.sectionAt (offset + (textOf (cellsOf as)).length) ∈ sectionsAt offset (as ++ .kind k :: cs) := by
  induction as generalizing offset with
  | nil => exact .head _
  | cons a as ih =>
    rw [cellsOf_cons, textOf_append, List.length_append, ← Nat.add_assoc]
    cases a with
    | filler f =>
      rw [Block.textOf_cells_filler]
      exact ih _
    | kind k' => exact .tail _ (ih _)

theorem Kind.objectsIn_cells (k : Kind) : objectsIn k.cells = k.objects := by
  rw [objectsIn, cells, objects, List.filterMap_cons_none rfl, List.filterMap_append, List.filterMap_map,
    List.filterMap_cons_none rfl, List.filterMap_nil, List.append_nil]
  rfl

/-- A kind is known by its name. -/
theorem Layout.eq_of_isa_eq {k k' : Kind} (hk : .kind k ∈ L.blocks) (hk' : .kind k' ∈ L.blocks) (h : k.isa = k'.isa) :
    k = k' :=
  List.inj_on_of_nodup_map L.isas_nodup (List.mem_filterMap.mpr ⟨_, hk, rfl⟩) (List.mem_filterMap.mpr ⟨_, hk', rfl⟩) h

/-- The sections of a text in Xcode layout are those of its kinds, with all their objects in order. -/
theorem sections_eq (h : Graph.load source L.text = .ok g) : g.sections = sectionsIn L.head.length L.blocks := by
  have hread := loaded_of_load h
  have htake : g.text.take g.tableEnd = L.head ++ textOf L.cells ++ L.indent := by
    have hsplit : L.text = (L.head ++ textOf L.cells ++ L.indent) ++ '\x7d' :: L.foot := by
      simp [Layout.text, Layout.closing]
    rw [hread.text, hread.tableEnd, hsplit, List.take_left]
  have hsections := sections_of_load h
  rw [sectionsOf, htake, L.pairMarkers_eq, List.map_map] at hsections
  rw [hsections]
  refine map_sectionsAt_eq L.head.length fun as k cs hblocks => ?_
  -- The members are a part of the ids, and those of the kind.
  have hnodup : (L.objects.map ObjectLines.id).Nodup := L.ids_nodup
  refine eq_of_sublists hnodup ?_ ?_ fun id => ?_
  · rw [← map_fst_spans h]
    exact List.filter_sublist.map _
  · have hobjects : L.objects = objectsIn (cellsOf as) ++ (k.objects ++ objectsIn (cellsOf cs)) := by
      rw [Layout.objects, Layout.cells, hblocks, cellsOf_append, cellsOf_cons, objectsIn_append, objectsIn_append,
        ← k.objectsIn_cells]
      rfl
    rw [hobjects]
    exact ((List.sublist_append_left _ _).trans (List.sublist_append_right _ _)).map _
  · obtain ⟨as', k', cs', hblocks', hplace, hmembers⟩ := hread.sections _
      (hsections ▸ List.mem_map_of_mem (hblocks ▸ sectionAt_mem L.head.length as k cs))
    have hisa : k.isa = k'.isa := congrArg Section.isa hplace
    obtain rfl := Layout.eq_of_isa_eq (hblocks ▸ by simp : Block.kind k ∈ L.blocks) (hblocks' ▸ by simp) hisa
    exact (hmembers id).trans List.mem_map.symm

end Xcode
end ModuleLink
