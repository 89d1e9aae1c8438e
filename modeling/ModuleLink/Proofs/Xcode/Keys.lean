import Mathlib
import ModuleLink.Proofs.Text.Pieces
import ModuleLink.Proofs.Xcode.AnyLayout
import ModuleLink.Proofs.Xcode.Overlaps

/-!
The keys of the object table that a changed graph is written with, each as often as it is there.  An object that was
read and is still there is written once, and an object that was added as often as it was added.
-/

namespace ModuleLink

namespace Plist

open Text

/-! ## Texts that carry entries between them -/

/-- The texts carry these entries between them, in whatever order. -/
def CarriesAll (ts : List (List Char)) (ks : List (Scalar × Value)) : Prop :=
  ∃ kss, List.Forall₂ Carries ts kss ∧ kss.flatten.Perm ks

section

variable {α : Type} {t : List Char} {ts us : List (List Char)} {ks ls : List (Scalar × Value)}

theorem carriesAll_singleton (h : Carries t ks) : CarriesAll [t] ks :=
  ⟨[ks], .cons h .nil, by simp⟩

theorem CarriesAll.append (ht : CarriesAll ts ks) (hu : CarriesAll us ls) : CarriesAll (ts ++ us) (ks ++ ls) := by
  obtain ⟨kss, hts, hks⟩ := ht
  obtain ⟨lss, hus, hls⟩ := hu
  refine ⟨kss ++ lss, List.rel_append hts hus, ?_⟩
  rw [List.flatten_append]
  exact hks.append hls

theorem carriesAll_flatMap {l : List α} {f : α → List (List Char)} {g : α → List (Scalar × Value)}
    (h : ∀ a ∈ l, CarriesAll (f a) (g a)) : CarriesAll (l.flatMap f) (l.flatMap g) := by
  induction l with
  | nil => exact ⟨[], .nil, .nil⟩
  | cons a l ih =>
    rw [List.flatMap_cons, List.flatMap_cons]
    exact (h a (by simp)).append (ih fun b hb => h b (by simp [hb]))

theorem CarriesAll.perm (h : CarriesAll ts ks) (hts : us.Perm ts) (hks : ks.Perm ls) : CarriesAll us ls := by
  obtain ⟨kss, hcarries, hflat⟩ := h
  obtain ⟨lss, hus, hperm⟩ := List.perm_comp_forall₂ hts hcarries
  exact ⟨lss, hus, (hperm.flatten.trans hflat).trans hks⟩

/-- Texts without entries. -/
theorem carriesAll_of_empty (h : ∀ t ∈ ts, t = []) : CarriesAll ts [] := by
  induction ts with
  | nil => exact ⟨[], .nil, .nil⟩
  | cons t ts ih =>
    obtain rfl := h t (by simp)
    exact (carriesAll_singleton (carries_gap .nil)).append (ih fun u hu => h u (by simp [hu]))

theorem carriesAll_map {l : List α} {f : α → List Char} {g : α → List (Scalar × Value)}
    (h : ∀ a ∈ l, Carries (f a) (g a)) : CarriesAll (l.map f) (l.flatMap g) := by
  rw [List.map_eq_flatMap]
  exact carriesAll_flatMap fun a ha => carriesAll_singleton (h a ha)

/-- Put together, the texts carry the entries. -/
theorem CarriesAll.flatten (h : CarriesAll ts ks) : ∃ ls, Carries ts.flatten ls ∧ ls.Perm ks := by
  obtain ⟨kss, hcarries, hflat⟩ := h
  refine ⟨kss.flatten, ?_, hflat⟩
  clear hflat
  induction hcarries with
  | nil => exact carries_gap .nil
  | cons hcarries _ ih => exact hcarries.append ih

end

end Plist

namespace Xcode

open Plist Text

variable {L : Layout} {g₀ g : Graph} {o : Object} {e : Edit} {id isa : String} {os : List Object}

/-! ## New objects -/

theorem flatMap_assign_perm (o : Object) (l : List (String × List Object)) :
    ((Dict.assign o.isa (((l.lookup o.isa).getD []) ++ [o]) l).flatMap (·.2)).Perm (l.flatMap (·.2) ++ [o]) := by
  induction l with
  | nil => exact .of_eq rfl
  | cons group l ih =>
    obtain ⟨isa, os⟩ := group
    rw [Dict.assign]
    split
    next heq =>
      subst heq
      rw [Entries.lookup_cons_self, Option.getD_some, List.flatMap_cons, List.flatMap_cons]
      simp only [List.append_assoc]
      exact List.perm_append_comm.append_left os
    next hne =>
      rw [Entries.lookup_cons_of_ne (Ne.symm hne), List.flatMap_cons, List.flatMap_cons, List.append_assoc]
      exact ih.append_left os

/-- The groups hold each object as often as it is there. -/
theorem grouped_perm (os : List Object) : ((grouped os).flatMap (·.2)).Perm os := by
  induction os using List.reverseRecOn with
  | nil => exact .nil
  | append_singleton os o ih =>
    rw [grouped_append_singleton]
    exact (flatMap_assign_perm o _).trans (ih.append_right [o])

theorem carriesAll_insertionEdits (hisa : IsKindName isa) (hos : ∀ o ∈ os, o.IsProper) :
    CarriesAll ((g.insertionEdits isa os).map Edit.text) (os.map fun o => o.tidy.pair) := by
  have hperm : (os.mergeSort fun a b => decide (a.id ≤ b.id)).Perm os := List.mergeSort_perm _ _
  have hsorted : ∀ o ∈ os.mergeSort (fun a b => decide (a.id ≤ b.id)), o.IsProper := fun o ho =>
    hos o (hperm.mem_iff.mp ho)
  have hbody := carries_section hisa hsorted
  rw [Graph.insertionEdits]
  split
  · refine CarriesAll.perm ?_ (.of_eq (List.map_map ..)) (hperm.map _)
    rw [List.map_eq_flatMap (f := fun o : Object => o.tidy.pair)]
    exact carriesAll_map fun o ho => carries_tableLine (hsorted o ho) (isInlineKind isa)
  · split
    · have hputs := hbody.append (carries_gap gap_newline)
      rw [List.append_nil] at hputs
      exact (carriesAll_singleton hputs).perm (.of_eq rfl) (hperm.map _)
    · have hputs := (carries_gap gap_newline).append hbody
      exact (carriesAll_singleton hputs).perm (.of_eq rfl) (hperm.map _)

/-! ## What the edits write -/

/-- The object of a place in the text that was touched and is written there. -/
def Graph.rewritten? (g : Graph) (id : String) : Option Object :=
  if g.removed.contains id then none else (g.spans.lookup id).bind fun _ => g.get? id

theorem rewritten?_eq_some : g.rewritten? id = some o ↔
    id ∉ g.removed ∧ (∃ span, g.spans.lookup id = some span) ∧ g.get? id = some o := by
  rw [Graph.rewritten?]
  split
  next hremoved => simp [List.contains_iff_mem.mp hremoved]
  next hremoved =>
    rw [List.contains_iff_mem] at hremoved
    simp only [hremoved, not_false_eq_true, true_and, Option.bind_eq_some_iff, exists_and_right]

theorem Follows.carriesAll_changeEdits (h : Follows g₀ g) (hlaid : Laid L g₀) :
    CarriesAll (g.changeEdits.map Edit.text) ((g.touched.filterMap g.rewritten?).map fun o => o.tidy.pair) := by
  have hlaid := h.laid hlaid
  rw [Graph.changeEdits, List.map_filterMap, List.map_filterMap, List.filterMap_eq_flatMap_toList,
    List.filterMap_eq_flatMap_toList]
  refine carriesAll_flatMap fun id _ => ?_
  have hnone : CarriesAll [] [] := ⟨[], .nil, .nil⟩
  rw [Graph.rewritten?]
  cases hspan : g.spans.lookup id with
  | none => simpa using hnone
  | some span =>
    cases hget : g.get? id with
    | none => simpa using hnone
    | some o =>
      simp only [Option.bind_some]
      split
      · exact hnone
      · obtain ⟨l, inline, n, -, -, rfl⟩ := hlaid.spans id span hspan
        exact carriesAll_singleton (carries_renderObject (h.proper o (Graph.get?_mem hget).1)
          (isBlankText_iff.mp l.indent_isIndent.blank) inline true)

theorem Follows.carriesAll_insertions (h : Follows g₀ g) :
    CarriesAll (((g.addedObjects.mergeSort fun a b => decide (a.1 ≤ b.1)).flatMap fun group =>
      g.insertionEdits group.1 group.2).map Edit.text) ((g.added.filterMap g.get?).map fun o => o.tidy.pair) := by
  rw [List.map_flatMap]
  have hgroups : CarriesAll ((g.addedObjects.mergeSort fun a b => decide (a.1 ≤ b.1)).flatMap fun group =>
        (g.insertionEdits group.1 group.2).map Edit.text)
      ((g.addedObjects.mergeSort fun a b => decide (a.1 ≤ b.1)).flatMap fun group =>
        group.2.map fun o => o.tidy.pair) := by
    refine carriesAll_flatMap fun group hgroup => ?_
    obtain ⟨hin, hkind⟩ := h.mem_addedObjects (List.mem_mergeSort.mp hgroup)
    exact carriesAll_insertionEdits hkind fun o ho => h.proper o (hin o ho)
  refine hgroups.perm (.refl _) ?_
  rw [← List.map_flatMap]
  exact (((List.mergeSort_perm _ _).flatMap_right _).trans (grouped_perm (g.added.filterMap g.get?))).map _

/-- The edits write the objects that were touched and those that were added. -/
theorem Follows.carriesAll_edits (h : Follows g₀ g) (hlaid : Laid L g₀) :
    CarriesAll (g.edits.map Edit.text)
      ((g.touched.filterMap g.rewritten? ++ g.added.filterMap g.get?).map fun o => o.tidy.pair) := by
  have hdrops : CarriesAll (((g.sections.filter g.isDropped).map g.dropSection).map Edit.text) [] := by
    refine carriesAll_of_empty fun t ht => ?_
    obtain ⟨e, he, rfl⟩ := List.mem_map.mp ht
    obtain ⟨s, hs, rfl⟩ := List.mem_map.mp he
    obtain ⟨as, cs, bs, -, hdrop, -⟩ := (h.laid hlaid).exists_dropped (List.mem_filter.mp hs).1
    rw [hdrop]
  have hremovals : CarriesAll (g.removalEdits.map Edit.text) [] := by
    refine carriesAll_of_empty fun t ht => ?_
    obtain ⟨e, he, rfl⟩ := List.mem_map.mp ht
    obtain ⟨id, -, span, -, -, rfl⟩ := mem_removalEdits he
    rfl
  rw [Graph.edits, List.map_append, List.map_append, List.map_append, List.map_append]
  exact ((hdrops.append hremovals).append (h.carriesAll_changeEdits hlaid)).append h.carriesAll_insertions

/-- The lines of an object are taken away if it was removed or touched. -/
theorem Follows.exists_covers_iff (h : Follows g₀ g) (hlaid : Laid L g₀)
    (hread : g₀.objects = L.objects.map ObjectLines.object) {l : ObjectLines} {n : Nat}
    (hat : L.At n (.part (.object l))) : (∃ e ∈ g.edits, e.Covers n) ↔ l.id ∈ g.removed ∨ l.id ∈ g.touched := by
  constructor
  · rintro ⟨e, he, hcovers⟩
    by_contra hneither
    rw [not_or] at hneither
    exact h.not_covers hlaid hat hneither.1 hneither.2 he hcovers
  · intro hchanged
    by_cases hremoved : l.id ∈ g.removed
    · obtain ⟨e, he, hcovers, -⟩ := (h.laid hlaid).exists_removal hat hremoved
      exact ⟨e, he, hcovers⟩
    · obtain ⟨-, o, ho, hid, -⟩ := h.kept l.object (hread ▸ List.mem_map_of_mem hat.mem_objects) hremoved
      obtain ⟨e, he, -, hcovers⟩ := h.exists_change hlaid hat ho hid (hchanged.resolve_left hremoved) hremoved
      exact ⟨e, he, hcovers⟩

/-- The lines that no edit takes away are those of the objects that were neither removed nor touched. -/
theorem Follows.objectsIn_spared (h : Follows g₀ g) (hlaid : Laid L g₀)
    (hread : g₀.objects = L.objects.map ObjectLines.object) :
    objectsIn (spared Cell.text g.edits L.head.length L.cells) =
      L.objects.filter fun l => !g.removed.contains l.id && !g.touched.contains l.id := by
  have hrest (as bs : List Cell) (hcells : L.cells = as ++ bs) :
      objectsIn (spared Cell.text g.edits (L.head.length + (textOf as).length) bs) =
        (objectsIn bs).filter fun l => !g.removed.contains l.id && !g.touched.contains l.id := by
    induction bs generalizing as with
    | nil => rfl
    | cons c bs ih =>
      have hat : L.At (L.head.length + (textOf as).length) c := ⟨as, bs, hcells, rfl⟩
      have hnext := ih (as ++ [c]) (by rw [hcells, List.append_assoc]; rfl)
      rw [textOf_append, textOf_cons, textOf_nil, List.append_nil, List.length_append, ← Nat.add_assoc] at hnext
      rw [spared]
      cases hobject : c.object? with
      | none =>
        have hskip (cs : List Cell) : objectsIn (c :: cs) = objectsIn cs := List.filterMap_cons_none hobject
        rw [hskip, ← hnext]
        split
        · rfl
        · exact hskip _
      | some l =>
        obtain rfl := Cell.eq_of_object? hobject
        simp only [h.exists_covers_iff hlaid hread hat]
        rw [objectsIn_object]
        split
        next hchanged => rw [hnext, List.filter_cons_of_neg (by simpa [or_iff_not_imp_left] using hchanged)]
        next hneither =>
          rw [objectsIn_object, hnext, List.filter_cons_of_pos (by simpa using hneither)]
  exact hrest [] L.cells rfl

/-! ## The table -/

/-- What the lines that stay and the edits put into the table. -/
def Graph.writtenObjects (L : Layout) (g : Graph) : List Object :=
  (L.objects.filter fun l => !g.removed.contains l.id && !g.touched.contains l.id).map ObjectLines.object ++
    (g.touched.filterMap g.rewritten? ++ g.added.filterMap g.get?)

theorem Follows.exists_table (h : Follows g₀ g) (hlaid : Laid L g₀)
    (hread : g₀.objects = L.objects.map ObjectLines.object) {t : List Char} (ht : applyEdits g.text g.edits = .ok t) :
    ∃ table ks, t = L.head ++ table ++ L.closing ∧ Carries table ks ∧
      ks.Perm ((g.writtenObjects L).map fun o => o.tidy.pair) := by
  have hnonempty : ∀ c ∈ L.cells.map Cell.text, c ≠ [] := by
    intro c hc
    obtain ⟨c, -, rfl⟩ := List.mem_map.mp hc
    exact c.text_ne_nil
  rw [(h.laid hlaid).text, Layout.text, textOf] at ht
  obtain ⟨pieces, rfl, hpieces⟩ := exists_perm_of_applyEdits hnonempty (fun e he => (h.fits_edits hlaid he).1) ht
  rw [← map_spared] at hpieces
  have hspared : CarriesAll ((spared Cell.text g.edits L.head.length L.cells).map Cell.text)
      ((objectsIn (spared Cell.text g.edits L.head.length L.cells)).map fun l => l.object.tidy.pair) := by
    rw [objectsIn, List.filterMap_eq_flatMap_toList, List.map_flatMap]
    exact carriesAll_map fun c hc => Cell.carries ((spared_sublist _ _ _ _).subset hc)
  rw [h.objectsIn_spared hlaid hread] at hspared
  have hall := (h.carriesAll_edits hlaid).append hspared
  obtain ⟨ks, hks, hperm⟩ := (hall.perm hpieces (.refl _)).flatten
  refine ⟨pieces.flatten, ks, rfl, hks, hperm.trans (List.perm_append_comm.trans ?_)⟩
  simp only [Graph.writtenObjects, List.map_append, List.map_map]
  exact .refl _

theorem map_id_filterMap {f : String → Option Object} (hf : ∀ id o, f id = some o → o.id = id) (ids : List String) :
    (ids.filterMap f).map Object.id = ids.filter fun id => (f id).isSome := by
  induction ids with
  | nil => rfl
  | cons id ids ih =>
    cases hid : f id with
    | none => rw [List.filterMap_cons_none hid, List.filter_cons_of_neg (by simp [hid]), ih]
    | some o => rw [List.filterMap_cons_some hid, List.filter_cons_of_pos (by simp [hid]), List.map_cons, ih, hf id o hid]

/-- Of the objects that were read each is written once that was not removed. -/
theorem Follows.map_id_read_perm (h : Follows g₀ g) (hlaid : Laid L g₀)
    (hread : g₀.objects = L.objects.map ObjectLines.object) (honce : g.Once) :
    (((L.objects.filter fun l => !g.removed.contains l.id && !g.touched.contains l.id).map ObjectLines.id) ++
      g.touched.filter fun id => (g.rewritten? id).isSome).Perm (g₀.ids.filter fun id => !g.removed.contains id) := by
  have hids : g₀.ids = L.objects.map ObjectLines.id := by
    rw [Graph.ids, hread, List.map_map]
    rfl
  have hnodup : (L.objects.map ObjectLines.id).Nodup := L.ids_nodup
  have hrewritten : ∀ id, (g.rewritten? id).isSome = true ↔ id ∈ L.objects.map ObjectLines.id ∧ id ∉ g.removed := by
    intro id
    rw [Option.isSome_iff_exists]
    simp only [rewritten?_eq_some, List.mem_map]
    constructor
    · rintro ⟨o, hremoved, ⟨span, hspan⟩, -⟩
      obtain ⟨l, inline, n, hat, hid, -⟩ := (h.laid hlaid).spans id span hspan
      exact ⟨⟨l, hat.mem_objects, hid⟩, hremoved⟩
    · rintro ⟨⟨l, hl, rfl⟩, hremoved⟩
      obtain ⟨-, o, ho, hid, -⟩ := h.kept l.object (hread ▸ List.mem_map_of_mem hl) hremoved
      have hid : o.id = l.id := hid
      exact ⟨o, hremoved, (h.laid hlaid).spans_some l hl, hid ▸ Graph.get?_of_mem h.nodup ho⟩
  refine (List.perm_ext_iff_of_nodup ?_ ?_).mpr fun id => ?_
  · refine List.nodup_append.mpr ⟨hnodup.sublist (List.filter_sublist.map _), honce.touched.filter _, ?_⟩
    rintro _ hkept id htouched rfl
    obtain ⟨l, hl, rfl⟩ := List.mem_map.mp hkept
    have hneither := (List.mem_filter.mp hl).2
    simp [(List.mem_filter.mp htouched).1] at hneither
  · rw [hids]
    exact hnodup.filter _
  · rw [hids]
    simp only [List.mem_append, List.mem_filter, hrewritten, List.mem_map, Bool.and_eq_true, Bool.not_eq_true',
      List.contains_eq_mem, decide_eq_false_iff_not]
    constructor
    · rintro (⟨l, ⟨hl, hremoved, -⟩, rfl⟩ | ⟨-, hl, hremoved⟩)
      · exact ⟨⟨l, hl, rfl⟩, hremoved⟩
      · exact ⟨hl, hremoved⟩
    · rintro ⟨⟨l, hl, rfl⟩, hremoved⟩
      by_cases htouched : l.id ∈ g.touched
      · exact .inr ⟨htouched, ⟨l, hl, rfl⟩, hremoved⟩
      · exact .inl ⟨l, ⟨hl, hremoved, htouched⟩, rfl⟩

/-- The keys of the table that is written are the ids of the objects that were read and not removed, and of those that
were added and are there, each as often as it was added. -/
theorem Follows.keys_perm (h : Follows g₀ g) (hlaid : Laid L g₀)
    (hread : g₀.objects = L.objects.map ObjectLines.object) (honce : g.Once) {t : List Char}
    (ht : applyEdits g.text g.edits = .ok t) :
    ((tableMembers t).map (·.key.value)).Perm
      ((g₀.ids.filter fun id => !g.removed.contains id) ++ g.added.filter g.contains) := by
  obtain ⟨table, ks, rfl, hks, hperm⟩ := h.exists_table hlaid hread ht
  obtain ⟨root, ms, hdocument, hms, -⟩ := L.document_of_carries hks
  have hmembers : tableMembers (L.head ++ table ++ L.closing) = ms := by
    rw [tableMembers, hdocument]
    rfl
  have hproper : ∀ o ∈ g.writtenObjects L, o.IsProper := by
    intro o ho
    simp only [Graph.writtenObjects, List.mem_append, List.mem_map, List.mem_filterMap] at ho
    rcases ho with ⟨l, -, rfl⟩ | ⟨id, -, hwritten⟩ | ⟨id, -, hget⟩
    · exact l.isProper
    · exact h.proper o (Graph.get?_mem (rewritten?_eq_some.mp hwritten).2.2).1
    · exact h.proper o (Graph.get?_mem hget).1
  have hkeys : ms.map (·.key.value) = ks.map (·.1.value) := by
    rw [← hms, List.map_map]
    rfl
  have hids : ((g.writtenObjects L).map fun o => o.tidy.pair).map (·.1.value) = (g.writtenObjects L).map Object.id := by
    rw [List.map_map]
    exact List.map_congr_left fun o ho => (hproper o ho).id.value o.comment
  rw [hmembers, hkeys]
  refine (hperm.map _).trans ?_
  rw [hids, Graph.writtenObjects, List.map_append, List.map_append, List.map_map, map_id_filterMap ?_, map_id_filterMap ?_,
    ← List.append_assoc]
  · exact (h.map_id_read_perm hlaid hread honce).append_right _
  · exact fun id o hget => (Graph.get?_mem hget).2
  · exact fun id o hwritten => (Graph.get?_mem (rewritten?_eq_some.mp hwritten).2.2).2

/-- An object that is there has one key in the table that is written, or as many as the times it was added, and no other
id has one. -/
theorem Follows.count_key (h : Follows g₀ g) (hlaid : Laid L g₀) (hread : g₀.objects = L.objects.map ObjectLines.object)
    (honce : g.Once) {t : List Char} (ht : applyEdits g.text g.edits = .ok t) (id : String) :
    ((tableMembers t).map (·.key.value)).count id = if g.contains id then max 1 (g.added.count id) else 0 := by
  have hnodup : g₀.ids.Nodup := by
    rw [Graph.ids, hread, List.map_map]
    exact L.ids_nodup
  have hkept : id ∈ g₀.ids ∧ id ∉ g.removed → id ∉ g.added ∧ id ∈ g.ids := by
    rintro ⟨hin, hremoved⟩
    obtain ⟨o, ho, rfl⟩ := List.mem_map.mp hin
    obtain ⟨hadded, p, hp, hid, -⟩ := h.kept o ho hremoved
    exact ⟨hadded, hid ▸ List.mem_map_of_mem hp⟩
  have hfirst : (g₀.ids.filter fun id => !g.removed.contains id).count id =
      if id ∈ g₀.ids ∧ id ∉ g.removed then 1 else 0 := by
    rw [(hnodup.filter _).count]
    simp [List.mem_filter]
  rw [(h.keys_perm hlaid hread honce ht).count_eq, List.count_append, hfirst]
  by_cases hthere : g.contains id = true
  · rw [List.count_filter hthere, if_pos hthere]
    by_cases hold : id ∈ g₀.ids ∧ id ∉ g.removed
    · rw [if_pos hold, List.count_eq_zero_of_not_mem (hkept hold).1]
      rfl
    · obtain ⟨o, ho, rfl⟩ := List.mem_map.mp (Graph.contains_iff.mp hthere)
      have hpos := List.count_pos_iff.mpr ((h.origin o ho).resolve_right hold)
      rw [if_neg hold]
      omega
  · have hgone : id ∉ g.added.filter g.contains := fun hin => hthere (List.mem_filter.mp hin).2
    have hold : ¬(id ∈ g₀.ids ∧ id ∉ g.removed) := fun hold => hthere (Graph.contains_iff.mpr (hkept hold).2)
    rw [if_neg hold, if_neg hthere, List.count_eq_zero_of_not_mem hgone]

/-! ## Texts in Xcode layout -/

section Layouts

variable {source : String} {changes : List Change} {t : List Char}

theorem once_of_load (hload : Graph.load source L.text = .ok g₀) (changes : List Change) : (g₀.changed changes).Once := by
  have hread := loaded_of_load hload
  exact Graph.Once.changed ⟨by simp [hread.removed], by simp [hread.touched]⟩ changes

/-- A project in Xcode layout is written with one key for each object that is there, or as many as the times the object
was added, and with no others.  So each is written once exactly if none that is there was added twice, which takes that
it was removed in between. -/
theorem count_key_of_changed (L : Layout) (hload : Graph.load source L.text = .ok g₀)
    (hchanges : ∀ c ∈ changes, c.IsProper) (ht : (g₀.changed changes).serialise = .ok t) :
    (∀ id, ((tableMembers t).map (·.key.value)).count id =
      if (g₀.changed changes).contains id then max 1 ((g₀.changed changes).added.count id) else 0) ∧
    ((∀ id, ((tableMembers t).map (·.key.value)).count id = if (g₀.changed changes).contains id then 1 else 0) ↔
      ∀ id, (g₀.changed changes).contains id = true → (g₀.changed changes).added.count id ≤ 1) := by
  have hread := loaded_of_load hload
  have hcount := (hread.follows.changed hchanges).count_key hread.toLaid hread.objects (once_of_load hload changes)
    (applyEdits_of_serialise ht)
  refine ⟨hcount, forall_congr' fun id => ?_⟩
  rw [hcount]
  split
  next hthere =>
    simp only [hthere, forall_const]
    omega
  next hgone => simp [hgone]

/-- A group that gets a child has one key, as before. -/
theorem count_key_of_changed_groupsLayout :
    ∃ g₀ t, Graph.load "project" groupsLayout.text = .ok g₀ ∧ (∀ c ∈ childAdded, c.IsProper) ∧
      (g₀.changed childAdded).serialise = .ok t ∧ ∀ id, ((tableMembers t).map (·.key.value)).count id =
        if (g₀.changed childAdded).contains id then max 1 ((g₀.changed childAdded).added.count id) else 0 := by
  obtain ⟨g₀, hload, -⟩ := groupsLayout.load_text "project"
  obtain ⟨-, -, t, ht⟩ := childAdded_groupsLayout hload
  exact ⟨g₀, t, hload, childAdded_isProper, ht, (count_key_of_changed groupsLayout hload childAdded_isProper ht).1⟩

/-- A graph that only puts in new objects is always written. -/
theorem Laid.exists_serialise_of_insertions (h : Laid L g) (hnone : g.textEdits = []) : ∃ t, g.serialise = .ok t := by
  have hpoints : ∀ e ∈ g.edits, e.stop = e.start := by
    intro e he
    rw [Graph.edits, ← Graph.textEdits, hnone, List.nil_append] at he
    obtain ⟨group, hgroup, he⟩ := List.mem_flatMap.mp he
    exact (h.insertion_place (List.mem_mergeSort.mp hgroup) he).1
  have hpairwise : g.edits.Pairwise Edit.Apart :=
    List.pairwise_of_forall_mem_list fun e he e' he' => Edit.apart_of_points (hpoints e he) (hpoints e' he')
  obtain ⟨t, ht⟩ := (exists_applyEdits_iff fun e he => (hpoints e he).ge).mpr hpairwise
  exact ⟨t, serialise_of_applyEdits ht⟩

/-- A group is added, removed and added again. -/
def groupAddedAgain : List Change :=
  [.add "PBXGroup" [] none "s", .remove "03C7C0ACE395D80182DB07AE", .add "PBXGroup" [] none "s"]

/-- The group is written twice. -/
theorem count_key_groupAddedAgain :
    ∃ g₀ t, Graph.load "project" groupsLayout.text = .ok g₀ ∧ (∀ c ∈ groupAddedAgain, c.IsProper) ∧
      (g₀.changed groupAddedAgain).serialise = .ok t ∧
      (g₀.changed groupAddedAgain).contains "03C7C0ACE395D80182DB07AE" = true ∧
      ((tableMembers t).map (·.key.value)).count "03C7C0ACE395D80182DB07AE" = 2 := by
  obtain ⟨g₀, hload, hread, -⟩ := groupsLayout.load_text "project"
  have hgroup : (Change.add "PBXGroup" [] none "s").IsProper :=
    ⟨⟨by decide, List.all_eq_true.mp (by decide)⟩, by simp, by simp⟩
  have hproper : ∀ c ∈ groupAddedAgain, c.IsProper := by
    simp only [groupAddedAgain, List.forall_mem_cons]
    exact ⟨hgroup, trivial, hgroup, nofun⟩
  have hstate : (Graph.load "project" groupsLayout.text).toOption.any (fun g =>
      (g.changed groupAddedAgain).textEdits.isEmpty &&
      (g.changed groupAddedAgain).contains "03C7C0ACE395D80182DB07AE" &&
      (g.changed groupAddedAgain).added.count "03C7C0ACE395D80182DB07AE" == 2) = true := by decide +kernel
  simp only [hload, Except.toOption, Option.any_some, Bool.and_eq_true, List.isEmpty_iff, beq_iff_eq] at hstate
  obtain ⟨⟨hnone, hthere⟩, htwice⟩ := hstate
  have h := hread.follows.changed hproper
  obtain ⟨t, ht⟩ := (h.laid hread.toLaid).exists_serialise_of_insertions hnone
  refine ⟨g₀, t, hload, hproper, ht, hthere, ?_⟩
  rw [h.count_key hread.toLaid hread.objects (once_of_load hload _) (applyEdits_of_serialise ht), if_pos hthere, htwice]
  rfl

end Layouts

end Xcode
end ModuleLink
