import Mathlib
import ModuleLink.Proofs.Xcode.Ordered
import ModuleLink.Proofs.Xcode.Overlaps

/-!
What becomes of every line when a changed graph is written back into a text with its sections in order: the lines of an
object give way to what the object is now, the lines of an emptied section go with a blank line next to it, and new
objects stand in front of the lines they sort before.
-/

namespace ModuleLink
namespace Xcode

open Plist Text

/-! ## Kinds that stay -/

/-- An object that was read and is still there is of the kind it was. -/
def KeepsKinds (g₀ g : Graph) : Prop :=
  ∀ o ∈ g₀.objects, o.id ∉ g.removed → ∀ p ∈ g.objects, p.id = o.id → p.isa = o.isa

section Kinds

variable {g₀ g : Graph} {o o' : Object}

theorem KeepsKinds.store_touch (h : KeepsKinds g₀ g) (ho : o ∈ g.objects) (hid : o'.id = o.id) (hisa : o'.isa = o.isa) :
    KeepsKinds g₀ ((g.store o').touch o.id) := by
  intro x hx hremoved p hp hpid
  rw [touch_eq] at hremoved hp
  rcases mem_store hp with rfl | ⟨hp, -⟩
  · exact hisa.trans (h x hx hremoved o ho (hid.symm.trans hpid))
  · exact h x hx hremoved p hp hpid

theorem KeepsKinds.apply (h : KeepsKinds g₀ g) (hfollows : Follows g₀ g) {c : Change} (hc : c.IsProper) :
    KeepsKinds g₀ (c.apply g) := by
  cases hkey : c.writes? with
  | some key =>
    rcases Change.apply_eq_or_store hkey g with hsame | ⟨o, ho, v, hchanged⟩
    · rwa [hsame]
    · rw [hchanged]
      exact h.store_touch ho rfl (Object.isa_setField (hc.leavesKinds.ne_isa hkey) v)
  | none =>
    cases c with
    | add isa fields comment seed =>
      simp only [Change.apply]
      split
      next g' o hadd =>
        obtain ⟨-, -, hid, rfl⟩ := isProper_added hc.1 hc.2.1 hc.2.2 hadd
        intro x hx hremoved p hp hpid
        rcases List.mem_append.mp hp with hp | hp
        · exact h x hx hremoved p hp hpid
        · -- The new object has not the id of one that is there.
          obtain rfl := List.mem_singleton.mp hp
          obtain ⟨-, q, hq, hqid, -⟩ := hfollows.kept x hx hremoved
          exact absurd (hid ▸ hpid ▸ hqid ▸ List.mem_map_of_mem hq) (Graph.newId_notMem g seed)
      · exact h
    | remove id =>
      simp only [Change.apply]
      cases hget : g.get? id with
      | none =>
        rw [Graph.removeObject, hget]
        exact h
      | some o =>
        obtain ⟨ho, rfl⟩ := Graph.get?_mem hget
        rw [hfollows.isIndexed.removeObject_eq ho]
        intro x hx hremoved p hp hpid
        refine h x hx (fun hin => hremoved ?_) p (List.mem_filter.mp hp).1 hpid
        simp only
        split
        · exact hin
        · exact List.mem_append_left _ hin
    | touch id =>
      intro x hx hremoved p hp hpid
      rw [Change.apply, touch_eq] at hremoved hp
      exact h x hx hremoved p hp hpid
    | appendRef | removeRef | addSetting | removeSetting => contradiction

/-- Proper changes leave the kinds of objects, however many there are. -/
theorem Follows.keepsKinds_changed (h : Follows g₀ g) (hkinds : KeepsKinds g₀ g) {changes : List Change}
    (hchanges : ∀ c ∈ changes, c.IsProper) : KeepsKinds g₀ (g.changed changes) := by
  induction changes generalizing g with
  | nil => exact hkinds
  | cons c changes ih =>
    have hc := hchanges c (by simp)
    exact ih (h.apply hc) (hkinds.apply h hc) fun d hd => hchanges d (by simp [hd])

end Kinds

/-! ## What a graph has to write -/

namespace Graph

/-- The new objects of a kind by id. -/
def newcomers (g : Graph) (isa : String) : List Object :=
  ((g.addedObjects.lookup isa).getD []).mergeSort fun a b => decide (a.id ≤ b.id)

/-- The kinds of the new objects, by name, with the objects in them. -/
def newGroups (g : Graph) : List (String × List Object) := g.addedObjects.mergeSort fun a b => decide (a.1 ≤ b.1)

/-- The kinds of new objects that have no section, by name. -/
def newIsas (g : Graph) : List String := (g.newGroups.map (·.1)).filter fun isa => !g.sections.any (·.isa == isa)

/-- The edits in the order in which they are made. -/
def editsInOrder (g : Graph) : List Edit := g.edits.mergeSort Edit.before

/-- Where a new object goes in the section of its kind. -/
def placeIn (g : Graph) (s : Section) (o : Object) : Nat :=
  ((s.members.find? fun m => o.id < m).bind fun m => g.spans.lookup m).elim s.endStart Span.start

/-- A section of the new objects of a kind. -/
def newSection (g : Graph) (isa : String) : List Char :=
  markerLine true isa ++ ((g.newcomers isa).flatMap Object.lines ++ markerLine false isa)

/-- What is put in at a place for a kind that has no section. -/
def newSectionAt (g : Graph) (isa : String) (n : Nat) : List Char :=
  match g.sectionAfter isa with
  | some s => if s.beginStart = n then g.newSection isa ++ ['\n'] else []
  | none => if g.lastLineStart = n then '\n' :: g.newSection isa else []

/-- No line that is written for an object starts like that of a marker. -/
structure WritesNoMarkers (g : Graph) : Prop where
  new : ∀ id ∈ g.added, ∀ o, g.get? id = some o → markers o.lines = []
  changed : ∀ e ∈ g.changeEdits, markers e.text = []

end Graph

/-- Where lines start with tabs, a line break in a scalar or a comment would have to make up such a line. -/
theorem Follows.writesNoMarkers {L : Layout} {g₀ g : Graph} (h : Follows g₀ g) (hlaid : Laid L g₀)
    (htabs : ∀ l ∈ L.objects, l.indent.head? = some '\t') (honLine : ∀ o ∈ g.objects, o.OnLine) : g.WritesNoMarkers where
  new id _ o hget := by
    obtain ⟨ho, -⟩ := Graph.get?_mem hget
    exact (h.proper o ho).markers_renderObject (honLine o ho) _ ⟨rfl, by decide⟩ rfl
  changed e he := by
    obtain ⟨id, -, span, o, hspan, hget, -, rfl⟩ := mem_changeEdits he
    obtain ⟨l, inline, n, hat, -, rfl⟩ := (h.laid hlaid).spans id span hspan
    obtain ⟨ho, -⟩ := Graph.get?_mem hget
    exact (h.proper o ho).markers_renderObject (honLine o ho) _ l.indent_isIndent (htabs l hat.mem_objects)

/-- The graph was read from a text with its sections in order and was changed, and its edits can be made. -/
structure Rewrites (L : Layout) (lead gap : List Filler) (g : Graph) : Prop where
  spaced : L.IsSpaced lead gap
  changed : ∃ source g₀, Graph.load source L.text = .ok g₀ ∧ Follows g₀ g ∧ KeepsKinds g₀ g
  pairwise : g.editsInOrder.Pairwise fun a b => a.stop ≤ b.start
  unmarked : g.WritesNoMarkers

variable {L : Layout} {lead gap : List Filler} {g : Graph} {s s' : Section} {l : ObjectLines} {n : Nat} {c : Cell}
  {o : Object} {isa : String}

theorem mem_editsInOrder {e : Edit} : e ∈ g.editsInOrder ↔ e ∈ g.edits := List.mem_mergeSort

/-! ### The new objects of a kind -/

theorem nodup_newGroups (g : Graph) : (g.newGroups.map (·.1)).Nodup :=
  ((List.mergeSort_perm _ _).map _).nodup_iff.mpr (nodup_grouped _)

theorem mem_newGroups {group : String × List Object} : group ∈ g.newGroups ↔ group ∈ g.addedObjects :=
  List.mem_mergeSort

theorem newcomers_of_group {group : String × List Object} (hgroup : group ∈ g.newGroups) :
    g.newcomers group.1 = group.2.mergeSort fun a b => decide (a.id ≤ b.id) := by
  have hlookup : g.addedObjects.lookup group.1 = some group.2 :=
    Dict.lookup_of_mem (nodup_grouped _) (mem_newGroups.mp hgroup)
  rw [Graph.newcomers, hlookup]
  rfl

theorem newcomers_of_notMem (hnone : isa ∉ g.newGroups.map (·.1)) : g.newcomers isa = [] := by
  have hlookup : g.addedObjects.lookup isa = none := Dict.lookup_eq_none_iff.mpr fun hin => hnone (by
    obtain ⟨group, hgroup, rfl⟩ := List.mem_map.mp hin
    exact List.mem_map_of_mem (mem_newGroups.mpr hgroup))
  rw [Graph.newcomers, hlookup]
  exact List.mergeSort_nil

theorem newcomers_perm (g : Graph) (isa : String) :
    (g.newcomers isa).Perm ((g.added.filterMap g.get?).filter fun o => o.isa == isa) := by
  rw [Graph.newcomers, ← lookup_grouped]
  exact List.mergeSort_perm _ _

/-- New objects are among the added ones and are of their kind. -/
theorem mem_newcomers (ho : o ∈ g.newcomers isa) : o.id ∈ g.added ∧ o ∈ g.objects ∧ o.isa = isa := by
  obtain ⟨ho, hisa⟩ := List.mem_filter.mp ((newcomers_perm g isa).mem_iff.mp ho)
  obtain ⟨id, hid, hget⟩ := List.mem_filterMap.mp ho
  obtain ⟨ho, rfl⟩ := Graph.get?_mem hget
  exact ⟨hid, ho, eq_of_beq hisa⟩

theorem lines_newcomers {os : List Object} (hos : ∀ o ∈ os, o ∈ g.newcomers isa) :
    os.flatMap (fun o => renderObject o tableIndent (isInlineKind isa) true) = os.flatMap Object.lines :=
  List.flatMap_congr fun o ho => by rw [Object.lines, (mem_newcomers (hos o ho)).2.2]

/-! ## Places -/

/-- At a place there is one cell. -/
theorem at_unique {d : Cell} (hc : L.At n c) (hd : L.At n d) : d = c :=
  (hc.unique hd (Nat.le_refl n) (Nat.lt_add_of_pos_right c.text_length_pos)).2

/-- The lines in front of which the objects of a kind can stand: those of another one, and the one that closes the
section. -/
def IsInside (isa : String) (c : Cell) : Prop :=
  (∃ l : ObjectLines, c = .part (.object l) ∧ l.object.isa = isa) ∨ c = .marker false isa

theorem IsInside.isa_eq {isa' : String} (hc : IsInside isa c) (hc' : IsInside isa' c) : isa = isa' := by
  rcases hc with ⟨l, rfl, rfl⟩ | rfl <;> rcases hc' with ⟨l', hl', rfl⟩ | hl'
  · rw [Part.object.inj (Cell.part.inj hl')]
  · contradiction
  · contradiction
  · exact (Cell.marker.inj hl').2

theorem IsInside.ne_begin {isa' : String} (hc : IsInside isa c) : c ≠ .marker true isa' := by
  rcases hc with ⟨l, rfl, -⟩ | rfl <;> simp

theorem sectionAfter_mem (h : g.sectionAfter isa = some s) : s ∈ g.sections :=
  (List.mem_filter.mp (List.mem_mergeSort.mp (List.mem_of_head? h))).1

namespace Rewrites

theorem laid (h : Rewrites L lead gap g) : Laid L g := by
  obtain ⟨source, g₀, hload, hfollows, -⟩ := h.changed
  exact hfollows.laid (loaded_of_load hload).toLaid

theorem sections (h : Rewrites L lead gap g) : g.sections = sectionsIn L.head.length L.blocks := by
  obtain ⟨source, g₀, hload, hfollows, -⟩ := h.changed
  rw [← sections_eq hload, hfollows.frame]

theorem nodup_isas (h : Rewrites L lead gap g) : (g.sections.map Section.isa).Nodup := by
  obtain ⟨source, g₀, hload, hfollows, -⟩ := h.changed
  have hsections : g.sections = g₀.sections := by rw [hfollows.frame]
  rw [hsections, map_isa_sections hload (loaded_of_load hload).toLaid]
  exact L.isas_nodup

theorem eq_of_isa (h : Rewrites L lead gap g) (hs : s ∈ g.sections) (hs' : s' ∈ g.sections) (hisa : s.isa = s'.isa) :
    s = s' :=
  List.inj_on_of_nodup_map h.nodup_isas hs hs' hisa

/-- An object of the text that was not removed is in the graph, of its kind, and was not added. -/
theorem exists_kept (h : Rewrites L lead gap g) (hl : l ∈ L.objects) (hremoved : l.id ∉ g.removed) :
    l.id ∉ g.added ∧ ∃ o ∈ g.objects, o.id = l.id ∧ o.isa = l.object.isa ∧ g.get? l.id = some o := by
  obtain ⟨source, g₀, hload, hfollows, hkinds⟩ := h.changed
  have hin : l.object ∈ g₀.objects := (loaded_of_load hload).objects ▸ List.mem_map_of_mem hl
  obtain ⟨hadded, o, ho, hid, -⟩ := hfollows.kept l.object hin hremoved
  refine ⟨hadded, o, ho, hid, hkinds l.object hin hremoved o ho hid, ?_⟩
  rw [show l.id = o.id from hid.symm]
  exact Graph.get?_of_mem hfollows.nodup ho

theorem begin_at (h : Rewrites L lead gap g) (hs : s ∈ g.sections) : L.At s.beginStart (.marker true s.isa) := by
  obtain ⟨as, k, bs, hcells, -, hisa, hbegin, -⟩ := h.laid.exists_kind hs
  exact ⟨as, k.parts.map .part ++ [.marker false k.isa] ++ bs, by rw [hcells, Kind.cells, hisa]; simp, hbegin⟩

theorem end_at (h : Rewrites L lead gap g) (hs : s ∈ g.sections) : L.At s.endStart (.marker false s.isa) := by
  obtain ⟨as, k, bs, hcells, -, hisa, -, hend, -⟩ := h.laid.exists_kind hs
  refine ⟨as ++ .marker true k.isa :: k.parts.map .part, bs, ?_, hend⟩
  rw [hcells, Kind.cells, hisa]
  simp only [List.append_assoc, List.cons_append, List.nil_append]

theorem not_at_lastLineStart (h : Rewrites L lead gap g) (c : Cell) : ¬ L.At g.lastLineStart c := by
  rw [h.laid.lastLineStart_eq]
  rintro ⟨as, bs, hcells, hn⟩
  have hpos := c.text_length_pos
  rw [hcells, textOf_append, textOf_cons, List.length_append, List.length_append] at hn
  omega

theorem placeIn_at (h : Rewrites L lead gap g) (hs : s ∈ g.sections) (o : Object) :
    ∃ c, L.At (g.placeIn s o) c ∧ IsInside s.isa c := by
  rw [Graph.placeIn]
  cases hspan : (s.members.find? fun m => o.id < m).bind fun m => g.spans.lookup m with
  | none => exact ⟨_, h.end_at hs, .inr rfl⟩
  | some span =>
    obtain ⟨id, hid, hspan⟩ := Option.bind_eq_some_iff.mp hspan
    obtain ⟨l, inline, n, hat, rfl, rfl⟩ := h.laid.spans id span hspan
    obtain ⟨as, k, bs, hcells, -, hisa, -, -, -, hmembers⟩ := h.laid.exists_kind hs
    obtain ⟨l', hl', hsame⟩ := (hmembers l.id).mp (List.mem_of_find?_eq_some hid)
    have hl : l' ∈ L.objects := Layout.mem_objects.mpr (by
      rw [hcells]
      simp [Kind.cells, Layout.mem_kind_objects.mp hl'])
    obtain rfl := Layout.eq_of_id_eq hl hat.mem_objects hsame
    exact ⟨_, hat, .inl ⟨l', rfl, hisa ▸ k.own l' (Layout.mem_kind_objects.mp hl')⟩⟩

end Rewrites

/-! ## What becomes of a line -/

/-- How objects are written: those that were read and are still there, and new ones. -/
structure Writer (L : Layout) (g : Graph) where
  again : ObjectLines → ObjectLines
  new : Object → ObjectLines
  again_id : ∀ l, (again l).id = l.id
  again_isa : ∀ l, (again l).object.isa = l.object.isa
  again_text : ∀ n l, L.At n (.part (.object l)) → l.id ∉ g.removed →
    replaced g.editsInOrder n l.text = (again l).text
  new_id : ∀ isa, ∀ o ∈ g.newcomers isa, (new o).id = o.id
  new_isa : ∀ isa, ∀ o ∈ g.newcomers isa, (new o).object.isa = isa
  new_text : ∀ isa, ∀ o ∈ g.newcomers isa, (new o).text = o.lines
  named : ∀ isa ∈ g.newIsas, IsKindName isa

/-- What becomes of the lines of an object. -/
def Writer.image (w : Writer L g) (l : ObjectLines) : List ObjectLines :=
  if g.removed.contains l.id then [] else [w.again l]

namespace Rewrites

/-- The lines of an object that is still there make place for its lines. -/
theorem exists_again (h : Rewrites L lead gap g) (hat : L.At n (.part (.object l))) (hremoved : l.id ∉ g.removed) :
    ∃ l' : ObjectLines, l'.id = l.id ∧ l'.object.isa = l.object.isa ∧ replaced g.editsInOrder n l.text = l'.text := by
  obtain ⟨source, g₀, hload, hfollows, -⟩ := h.changed
  by_cases htouched : l.id ∈ g.touched
  · obtain ⟨-, o, ho, hid, hisa, hget⟩ := h.exists_kept hat.mem_objects hremoved
    obtain ⟨inline, hspan⟩ := h.laid.exists_span hat
    have hmem : (⟨n, n + l.text.length, renderObject o l.indent inline true⟩ : Edit) ∈ g.changeEdits := by
      refine List.mem_filterMap.mpr ⟨l.id, htouched, ?_⟩
      simp only [hspan, hget]
      rw [if_neg (by simpa using hremoved)]
    have hobject := ObjectLines.object_ofObject (hfollows.proper o ho) inline l.indent_isIndent
      (h.unmarked.changed _ hmem)
    refine ⟨.ofObject o (hfollows.proper o ho) inline l.indent l.indent_isIndent (h.unmarked.changed _ hmem), ?_, ?_, ?_⟩
    · exact (congrArg Object.id hobject).trans hid
    · rw [hobject, Object.isa_tidy, hisa]
    · rw [replaced_of_covers h.pairwise (mem_editsInOrder.mpr (mem_edits.mpr (.inr (.inr (.inl hmem)))))
        (covers_lines l n _), if_pos rfl, ObjectLines.text_ofObject]
  · exact ⟨l, rfl, rfl, replaced_of_not_covers fun e he =>
      hfollows.not_covers (loaded_of_load hload).toLaid hat hremoved htouched (mem_editsInOrder.mp he)⟩

/-- New objects can be written on lines of their own. -/
theorem exists_new (h : Rewrites L lead gap g) (ho : o ∈ g.newcomers isa) :
    ∃ l : ObjectLines, l.id = o.id ∧ l.object.isa = isa ∧ l.text = o.lines := by
  obtain ⟨source, g₀, -, hfollows, -⟩ := h.changed
  obtain ⟨hadded, ho, hisa⟩ := mem_newcomers ho
  have hunmarked := h.unmarked.new o.id hadded o (Graph.get?_of_mem hfollows.nodup ho)
  have hobject := ObjectLines.object_ofObject (hfollows.proper o ho) (isInlineKind o.isa) ⟨rfl, by decide⟩ hunmarked
  refine ⟨.ofObject o (hfollows.proper o ho) (isInlineKind o.isa) tableIndent ⟨rfl, by decide⟩ hunmarked, ?_, ?_,
    ObjectLines.text_ofObject _ _ _ _⟩
  · exact congrArg Object.id hobject
  · rw [hobject, Object.isa_tidy, hisa]

theorem named (h : Rewrites L lead gap g) (hisa : isa ∈ g.newIsas) : IsKindName isa := by
  obtain ⟨source, g₀, -, hfollows, -⟩ := h.changed
  obtain ⟨group, hgroup, rfl⟩ := List.mem_map.mp (List.mem_filter.mp hisa).1
  exact (hfollows.mem_addedObjects (mem_newGroups.mp hgroup)).2

theorem nonempty_writer (h : Rewrites L lead gap g) : Nonempty (Writer L g) := by
  have hagain : ∀ l : ObjectLines, ∃ l' : ObjectLines, l'.id = l.id ∧ l'.object.isa = l.object.isa ∧
      ∀ n, L.At n (.part (.object l)) → l.id ∉ g.removed → replaced g.editsInOrder n l.text = l'.text := by
    intro l
    by_cases hthere : ∃ n, L.At n (.part (.object l)) ∧ l.id ∉ g.removed
    · obtain ⟨n, hat, hremoved⟩ := hthere
      obtain ⟨l', hid, hisa, htext⟩ := h.exists_again hat hremoved
      refine ⟨l', hid, hisa, fun m hat' _ => ?_⟩
      rw [hat'.eq_of_id hat rfl, htext]
    · exact ⟨l, rfl, rfl, fun n hat hremoved => absurd ⟨n, hat, hremoved⟩ hthere⟩
  have hnew : ∀ o : Object, ∃ l : ObjectLines, ∀ isa, o ∈ g.newcomers isa →
      l.id = o.id ∧ l.object.isa = isa ∧ l.text = o.lines := by
    intro o
    by_cases ho : o ∈ g.newcomers o.isa
    · obtain ⟨l, hid, hisa, htext⟩ := h.exists_new ho
      exact ⟨l, fun isa hin => ⟨hid, hisa.trans (mem_newcomers hin).2.2, htext⟩⟩
    · exact ⟨firstGroup, fun isa hin => absurd ((mem_newcomers hin).2.2 ▸ hin) ho⟩
  choose again again_id again_isa again_text using hagain
  choose new hnew using hnew
  exact ⟨{ again, new, again_id, again_isa
           again_text := fun n l => again_text l n
           new_id := fun isa o ho => (hnew o isa ho).1
           new_isa := fun isa o ho => (hnew o isa ho).2.1
           new_text := fun isa o ho => (hnew o isa ho).2.2
           named := fun isa hisa => h.named hisa }⟩

/-- The lines of an object give way to what it is now. -/
theorem replaced_object (h : Rewrites L lead gap g) (w : Writer L g) (hat : L.At n (.part (.object l))) :
    replaced g.editsInOrder n l.text = (w.image l).flatMap ObjectLines.text := by
  rw [Writer.image]
  by_cases hremoved : l.id ∈ g.removed
  · obtain ⟨e, he, hcovers, htext⟩ := h.laid.exists_removal hat hremoved
    rw [if_pos (List.contains_iff_mem.mpr hremoved), replaced_of_covers h.pairwise (mem_editsInOrder.mpr he) hcovers,
      htext, ite_self]
    rfl
  · rw [if_neg (by simpa using hremoved), w.again_text n l hat hremoved, List.flatMap_singleton]

/-- What stands in a section that is taken out, or in the blank line that goes with it, is taken out. -/
theorem replaced_of_dropped (h : Rewrites L lead gap g) (hs : s ∈ g.sections) (hdropped : g.isDropped s = true)
    (hcovers : (g.dropSection s).Covers n) (cell : List Char) : replaced g.editsInOrder n cell = [] := by
  have htext : (g.dropSection s).text = [] := by
    obtain ⟨as, cs, bs, -, hdrop, -⟩ := h.laid.exists_dropped hs
    rw [hdrop]
  rw [replaced_of_covers h.pairwise (mem_editsInOrder.mpr (mem_edits.mpr (.inl ⟨s, hs, hdropped, rfl⟩))) hcovers,
    htext, ite_self]

/-- A line that is not one of an object stays where no section around it is taken out. -/
theorem replaced_of_kept (h : Rewrites L lead gap g) (hat : L.At n c) (hc : c.object? = none)
    (hkept : ∀ s ∈ g.sections, g.isDropped s = true → ¬ (g.dropSection s).Covers n) :
    replaced g.editsInOrder n c.text = c.text := by
  have hobject {e : Edit} {id : String} (he : L.IsAt e id) : ¬ e.Covers n := by
    rintro ⟨hstart, hstop⟩
    obtain ⟨l, hl, -, hlen⟩ := he
    obtain ⟨-, rfl⟩ := hl.unique hat hstart (hlen ▸ hstop)
    contradiction
  refine replaced_of_not_covers fun e he => ?_
  rcases mem_edits.mp (mem_editsInOrder.mp he) with ⟨s, hs, hdropped, rfl⟩ | he | he | ⟨group, hgroup, he⟩
  · exact hkept s hs hdropped
  · obtain ⟨id, -, span, hspan, -, rfl⟩ := mem_removalEdits he
    exact hobject (h.laid.isAt_of_span hspan [])
  · obtain ⟨id, -, span, o, hspan, -, -, rfl⟩ := mem_changeEdits he
    exact hobject (h.laid.isAt_of_span hspan _)
  · rintro ⟨hstart, hstop⟩
    rw [(h.laid.insertion_place hgroup he).1] at hstop
    omega

/-- What stands in a section that is kept is not taken out with another one. -/
theorem not_covers_of_kept (h : Rewrites L lead gap g) (hs : s ∈ g.sections) (hkept : g.isDropped s = false)
    (hbegin : s.beginStart ≤ n) (hend : n ≤ s.endStart) (hs' : s' ∈ g.sections) (hdropped : g.isDropped s' = true) :
    ¬ (g.dropSection s').Covers n := by
  have hne : s.isa ≠ s'.isa := fun heq => by
    obtain rfl := h.eq_of_isa hs hs' heq
    rw [hkept] at hdropped
    contradiction
  have hbegin' := h.laid.outside_dropSection hs' (h.begin_at hs) (.inr ⟨s.isa, rfl, hne⟩)
  have hend' := h.laid.outside_dropSection hs' (h.end_at hs) (.inr ⟨s.isa, rfl, hne⟩)
  rintro ⟨hstart, hstop⟩
  -- Otherwise the other section would stand between the marker lines of this one.
  obtain ⟨as, k, bs, hcells, -, hisa, hbegins, hends, -⟩ := h.laid.exists_kind hs
  obtain ⟨as', cs, bs', -, hdrop, hfrom, hto, -⟩ := h.laid.exists_dropped hs'
  obtain ⟨ds, k', -, -, -, -, hbegins', -, hstops', -⟩ := h.laid.exists_kind hs'
  have hpos := k'.textOf_cells_length_pos
  have hmarker := (Cell.marker false s.isa).text_length_pos
  have hlen : (textOf (as ++ .marker true k.isa :: k.parts.map .part)).length ≤
      (textOf as).length + (textOf k.cells).length := by
    simp only [Kind.cells, textOf_append, textOf_cons, List.length_append]
    omega
  rw [hdrop] at hbegin' hend' hstart hstop
  simp only at hbegin' hend' hstart hstop
  have hin : .marker true s'.isa ∈ k.cells :=
    (h.begin_at hs').mem_of_between hcells (by omega) (by omega)
  rcases Kind.isa?_of_mem hin with hnone | hsome
  · contradiction
  · exact hne (hisa.trans (Option.some.inj hsome).symm)

/-- The marker lines of a section that is kept stay. -/
theorem replaced_marker (h : Rewrites L lead gap g) {opens : Bool} (hs : s ∈ g.sections)
    (hat : L.At n (.marker opens s.isa)) (hn : n = s.beginStart ∨ n = s.endStart) (hkept : g.isDropped s = false) :
    replaced g.editsInOrder n (markerLine opens s.isa) = markerLine opens s.isa := by
  have hplaces : s.beginStart ≤ s.endStart := by
    obtain ⟨as, k, bs, -, -, -, hbegins, hends, -⟩ := h.laid.exists_kind hs
    rw [hbegins, hends, textOf_append, List.length_append]
    omega
  exact h.replaced_of_kept hat rfl fun s' hs' hdropped =>
    h.not_covers_of_kept hs hkept (by omega) (by omega) hs' hdropped

/-! ## What is put in front of a line -/

end Rewrites

theorem putsAt_append (es es' : List Edit) (n : Nat) : putsAt (es ++ es') n = putsAt es n ++ putsAt es' n := by
  rw [putsAt, putsAt, putsAt, List.filter_append, List.flatMap_append]

theorem putsAt_flatMap {α : Type} (f : α → List Edit) (xs : List α) (n : Nat) :
    putsAt (xs.flatMap f) n = xs.flatMap fun x => putsAt (f x) n := by
  induction xs with
  | nil => rfl
  | cons x xs ih => rw [List.flatMap_cons, putsAt_append, ih, List.flatMap_cons]

theorem putsAt_of_forall_lt {es : List Edit} (h : ∀ e ∈ es, e.start < e.stop) (n : Nat) : putsAt es n = [] := by
  have hnone : (es.filter fun e => e.start == n && e.stop == n) = [] := by
    refine List.filter_eq_nil_iff.mpr fun e he => ?_
    have := h e he
    simp only [Bool.and_eq_true, beq_iff_eq]
    omega
  rw [putsAt, hnone, List.flatMap_nil]

theorem putsAt_map_point {f : Object → Nat} {r : Object → List Char} (os : List Object) (n : Nat) :
    putsAt (os.map fun o => ⟨f o, f o, r o⟩) n = (os.filter fun o => f o == n).flatMap r := by
  rw [putsAt, List.filter_map, List.flatMap_map]
  simp only [Function.comp_def, Bool.and_self]

theorem flatMap_ite {α β : Type} (p : α → Bool) (f : α → List β) (xs : List α) :
    xs.flatMap (fun x => if p x then f x else []) = (xs.filter p).flatMap f := by
  induction xs with
  | nil => rfl
  | cons x xs ih =>
    rw [List.flatMap_cons, ih, List.filter_cons]
    split <;> rfl

/-- Of groups of different kinds one matters. -/
theorem flatMap_of_lookup {β γ : Type} {f : String × β → List γ} {xs : List (String × β)} {key : String}
    (hnodup : (xs.map (·.1)).Nodup) (hother : ∀ x ∈ xs, x.1 ≠ key → f x = []) :
    xs.flatMap f = ((xs.lookup key).map fun v => f (key, v)).getD [] := by
  induction xs with
  | nil => rfl
  | cons x xs ih =>
    obtain ⟨k, v⟩ := x
    rw [List.map_cons, List.nodup_cons] at hnodup
    rw [List.flatMap_cons]
    by_cases hk : key = k
    · have hrest : xs.flatMap f = [] := List.flatMap_eq_nil_iff.mpr fun y hy => hother y (by simp [hy]) fun heq =>
        hnodup.1 (List.mem_map.mpr ⟨y, hy, heq.trans hk⟩)
      rw [hrest, List.append_nil, hk, Entries.lookup_cons_self]
      rfl
    · rw [hother (k, v) (by simp) (Ne.symm hk), List.nil_append, Entries.lookup_cons_of_ne hk,
        ih hnodup.2 fun y hy => hother y (by simp [hy])]

/-- What is put in for new objects whose kind has no section. -/
theorem putsAt_of_new {group : String × List Object} (hgroup : group ∈ g.newGroups)
    (hnew : ∀ s ∈ g.sections, s.isa ≠ group.1) (n : Nat) :
    putsAt (g.insertionEdits group.1 group.2) n = g.newSectionAt group.1 n := by
  have hnone : (g.sections.filter fun s' => s'.isa == group.1).head? = none := by
    rw [List.head?_eq_none_iff, List.filter_eq_nil_iff]
    exact fun s hs => by simpa using hnew s hs
  have hlines : (g.newcomers group.1).flatMap (fun o => renderObject o tableIndent (isInlineKind group.1) true) = _ :=
    lines_newcomers fun o ho => ho
  have hbody : "/* Begin ".toList ++ group.1.toList ++ " section */\n".toList ++
      (group.2.mergeSort fun a b => decide (a.id ≤ b.id)).flatMap
        (fun o => renderObject o tableIndent (isInlineKind group.1) true) ++
      "/* End ".toList ++ group.1.toList ++ " section */\n".toList = g.newSection group.1 := by
    rw [Graph.newSection, ← hlines, newcomers_of_group hgroup, markerLine, markerLine]
    simp only [if_true, if_false, Bool.false_eq_true, List.append_assoc]
  rw [Graph.insertionEdits, hnone]
  simp only
  rw [hbody, Graph.newSectionAt]
  cases g.sectionAfter group.1 with
  | some s =>
    rw [putsAt, List.filter_cons, List.filter_nil]
    simp only [Bool.and_self, beq_iff_eq]
    split
    · exact List.flatMap_singleton _ _
    · rfl
  | none =>
    rw [putsAt, List.filter_cons, List.filter_nil]
    simp only [Bool.and_self, beq_iff_eq]
    split
    · exact List.flatMap_singleton _ _
    · rfl

namespace Rewrites

/-- Only new objects are put in front of a line. -/
theorem putsAt_eq (h : Rewrites L lead gap g) (n : Nat) :
    putsAt g.editsInOrder n = g.newGroups.flatMap fun group => putsAt (g.insertionEdits group.1 group.2) n := by
  have hobject {e : Edit} {id : String} (he : L.IsAt e id) : e.start < e.stop := by
    obtain ⟨l, -, -, hlen⟩ := he
    have := (Cell.part (.object l)).text_length_pos
    rw [show (Cell.part (.object l)).text = l.text from rfl] at this
    omega
  have hdrops : ∀ e ∈ (g.sections.filter g.isDropped).map g.dropSection, e.start < e.stop := by
    intro e he
    obtain ⟨s, hs, rfl⟩ := List.mem_map.mp he
    have hs := (List.mem_filter.mp hs).1
    obtain ⟨as, cs, bs, -, hdrop, hstart, hstop, -⟩ := h.laid.exists_dropped hs
    obtain ⟨as', k, bs', -, -, -, hbegin, -, hend, -⟩ := h.laid.exists_kind hs
    have hpos := k.textOf_cells_length_pos
    rw [hdrop]
    simp only
    omega
  have hremovals : ∀ e ∈ g.removalEdits, e.start < e.stop := fun e he => by
    obtain ⟨id, -, span, hspan, -, rfl⟩ := mem_removalEdits he
    exact hobject (h.laid.isAt_of_span hspan [])
  have hchanges : ∀ e ∈ g.changeEdits, e.start < e.stop := fun e he => by
    obtain ⟨id, -, span, o, hspan, -, -, rfl⟩ := mem_changeEdits he
    exact hobject (h.laid.isAt_of_span hspan _)
  rw [Graph.editsInOrder, putsAt_mergeSort, Graph.edits, putsAt_append, putsAt_append, putsAt_append,
    putsAt_of_forall_lt hdrops, putsAt_of_forall_lt hremovals, putsAt_of_forall_lt hchanges, List.nil_append,
    List.nil_append, List.nil_append, putsAt_flatMap]
  rfl

theorem head?_sections (h : Rewrites L lead gap g) (hs : s ∈ g.sections) :
    (g.sections.filter fun s' => s'.isa == s.isa).head? = some s := by
  rw [List.head?_filter]
  obtain ⟨s', hs'⟩ : ∃ s', (g.sections.find? fun s' => s'.isa == s.isa) = some s' :=
    Option.isSome_iff_exists.mp (List.find?_isSome.mpr ⟨s, hs, beq_self_eq_true _⟩)
  have hisa : (s'.isa == s.isa) = true := by simpa using List.find?_some hs'
  rw [hs', h.eq_of_isa (List.mem_of_find?_eq_some hs') hs (eq_of_beq hisa)]

/-- What is put in for new objects whose kind has a section. -/
theorem putsAt_of_section (h : Rewrites L lead gap g) (hs : s ∈ g.sections) {group : String × List Object}
    (hgroup : group ∈ g.newGroups) (hisa : group.1 = s.isa) (n : Nat) :
    putsAt (g.insertionEdits group.1 group.2) n =
      ((g.newcomers group.1).filter fun o => g.placeIn s o == n).flatMap Object.lines := by
  have hlines : ((g.newcomers group.1).filter fun o => g.placeIn s o == n).flatMap
      (fun o => renderObject o tableIndent (isInlineKind s.isa) true) = _ :=
    lines_newcomers fun o ho => hisa ▸ (List.mem_filter.mp ho).1
  have hedits : g.insertionEdits s.isa group.2 = (group.2.mergeSort fun a b => decide (a.id ≤ b.id)).map fun o =>
      ⟨g.placeIn s o, g.placeIn s o, renderObject o tableIndent (isInlineKind s.isa) true⟩ := by
    rw [Graph.insertionEdits, h.head?_sections hs]
    refine List.map_congr_left fun o _ => ?_
    rw [Graph.placeIn, ← List.head?_filter]
    simp only
    split
    next span hspan =>
      rw [hspan]
      rfl
    next hnone =>
      rw [hnone]
      rfl
  rw [← hlines, newcomers_of_group hgroup, hisa, hedits, putsAt_map_point]

/-- New sections go in front of others, or behind all lines. -/
theorem newSectionAt_eq_nil (h : Rewrites L lead gap g) (hat : L.At n c) (hc : ∀ isa, c ≠ .marker true isa)
    (isa : String) : g.newSectionAt isa n = [] := by
  rw [Graph.newSectionAt]
  split
  next s hafter =>
    rw [if_neg]
    rintro rfl
    exact hc s.isa (at_unique (h.begin_at (sectionAfter_mem hafter)) hat)
  · rw [if_neg]
    rintro rfl
    exact h.not_at_lastLineStart c hat

/-- Where no object of a section can go only new sections are put in. -/
theorem putsAt_outside (h : Rewrites L lead gap g) (hout : ∀ c isa, L.At n c → ¬ IsInside isa c) :
    putsAt g.editsInOrder n = g.newIsas.flatMap fun isa => g.newSectionAt isa n := by
  have hgroup : ∀ group ∈ g.newGroups, putsAt (g.insertionEdits group.1 group.2) n =
      if !g.sections.any (·.isa == group.1) then g.newSectionAt group.1 n else [] := by
    intro group hgroup
    by_cases hold : ∃ s ∈ g.sections, s.isa = group.1
    · obtain ⟨s, hs, hisa⟩ := hold
      have hany : g.sections.any (·.isa == group.1) = true := List.any_eq_true.mpr ⟨s, hs, beq_iff_eq.mpr hisa⟩
      have hnone : ((g.newcomers group.1).filter fun o => g.placeIn s o == n) = [] := by
        refine List.filter_eq_nil_iff.mpr fun o _ hplace => ?_
        obtain ⟨c, hat, hin⟩ := h.placeIn_at hs o
        exact hout c s.isa (eq_of_beq hplace ▸ hat) hin
      rw [h.putsAt_of_section hs hgroup hisa.symm, hnone, List.flatMap_nil, hany]
      rfl
    · have hnew : ∀ s ∈ g.sections, s.isa ≠ group.1 := fun s hs hisa => hold ⟨s, hs, hisa⟩
      have hany : g.sections.any (·.isa == group.1) = false := by simpa [List.any_eq_false] using hnew
      rw [putsAt_of_new hgroup hnew, hany]
      rfl
  rw [h.putsAt_eq, List.flatMap_congr hgroup, flatMap_ite, Graph.newIsas, List.filter_map, List.flatMap_map]
  rfl

/-- In front of a line of a section stand the new objects of its kind whose place that is. -/
theorem putsAt_inside (h : Rewrites L lead gap g) (hs : s ∈ g.sections) (hat : L.At n c) (hc : IsInside s.isa c) :
    putsAt g.editsInOrder n = ((g.newcomers s.isa).filter fun o => g.placeIn s o == n).flatMap Object.lines := by
  have hother : ∀ group ∈ g.newGroups, group.1 ≠ s.isa → putsAt (g.insertionEdits group.1 group.2) n = [] := by
    intro group hgroup hne
    by_cases hold : ∃ s' ∈ g.sections, s'.isa = group.1
    · obtain ⟨s', hs', hisa⟩ := hold
      have hnone : ((g.newcomers group.1).filter fun o => g.placeIn s' o == n) = [] := by
        refine List.filter_eq_nil_iff.mpr fun o _ hplace => hne ?_
        obtain ⟨d, hd, hin⟩ := h.placeIn_at hs' o
        rw [eq_of_beq hplace] at hd
        rw [at_unique hat hd] at hin
        exact hisa.symm.trans (hin.isa_eq hc)
      rw [h.putsAt_of_section hs' hgroup hisa.symm, hnone, List.flatMap_nil]
    · rw [putsAt_of_new hgroup fun s hs hisa => hold ⟨s, hs, hisa⟩]
      exact h.newSectionAt_eq_nil hat (fun _ => hc.ne_begin) _
  rw [h.putsAt_eq, flatMap_of_lookup (nodup_newGroups g) hother]
  cases hlookup : g.newGroups.lookup s.isa with
  | none =>
    rw [newcomers_of_notMem (Dict.lookup_eq_none_iff.mp hlookup)]
    rfl
  | some os => exact h.putsAt_of_section hs (Dict.mem_of_lookup hlookup) rfl n

/-- Nothing is put in front of a line that is neither a marker nor one of an object. -/
theorem putsAt_filler (h : Rewrites L lead gap g) {f : Filler} (hat : L.At n (.part (.filler f))) :
    putsAt g.editsInOrder n = [] := by
  rw [h.putsAt_outside fun c isa hc hin => ?_]
  · exact List.flatMap_eq_nil_iff.mpr fun isa _ => h.newSectionAt_eq_nil hat (by simp) isa
  · obtain rfl := at_unique hat hc
    rcases hin with ⟨l, hl, -⟩ | hl
    · exact Part.noConfusion (Cell.part.inj hl)
    · contradiction

/-- In front of a section stand the new sections whose place that is. -/
theorem putsAt_begin (h : Rewrites L lead gap g) (hs : s ∈ g.sections) : putsAt g.editsInOrder s.beginStart =
    (g.newIsas.filter fun isa => (g.sectionAfter isa).any (·.isa == s.isa)).flatMap fun isa =>
      g.newSection isa ++ ['\n'] := by
  have hnew : ∀ isa ∈ g.newIsas, g.newSectionAt isa s.beginStart =
      if (g.sectionAfter isa).any (·.isa == s.isa) then g.newSection isa ++ ['\n'] else [] := by
    intro isa _
    rw [Graph.newSectionAt]
    split
    next s' hafter =>
      have hs' := sectionAfter_mem hafter
      have hplace : s'.beginStart = s.beginStart ↔ s'.isa = s.isa := by
        constructor
        · intro heq
          have hbegin := h.begin_at hs'
          rw [heq] at hbegin
          exact (Cell.marker.inj (at_unique (h.begin_at hs) hbegin)).2
        · intro heq
          rw [h.eq_of_isa hs' hs heq]
      simp only [hafter, Option.any_some, beq_iff_eq, hplace]
    next hafter =>
      rw [if_neg, hafter]
      · rfl
      · intro heq
        exact h.not_at_lastLineStart _ (heq ▸ h.begin_at hs)
  rw [h.putsAt_outside fun c isa hc hin => ?_, List.flatMap_congr hnew, flatMap_ite]
  exact hin.ne_begin (at_unique (h.begin_at hs) hc)

/-- Behind all lines stand the new sections that no other follows. -/
theorem putsAt_last (h : Rewrites L lead gap g) : putsAt g.editsInOrder g.lastLineStart =
    (g.newIsas.filter fun isa => (g.sectionAfter isa).isNone).flatMap fun isa => '\n' :: g.newSection isa := by
  have hnew : ∀ isa ∈ g.newIsas, g.newSectionAt isa g.lastLineStart =
      if (g.sectionAfter isa).isNone then '\n' :: g.newSection isa else [] := by
    intro isa _
    rw [Graph.newSectionAt]
    split
    next s hafter =>
      rw [if_neg, hafter]
      · rfl
      · intro heq
        exact h.not_at_lastLineStart _ (heq ▸ h.begin_at (sectionAfter_mem hafter))
    next hafter => rw [if_pos rfl, hafter, Option.isNone_none, if_pos rfl]
  rw [h.putsAt_outside fun c isa hc _ => h.not_at_lastLineStart c hc, List.flatMap_congr hnew, flatMap_ite]

end Rewrites

end Xcode
end ModuleLink
