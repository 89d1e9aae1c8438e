import Mathlib
import ModuleLink.Proofs.Xcode.Keys
import ModuleLink.Proofs.Xcode.Written

/-!
New objects and new sections go where they sort: a project text in order stays in order, however the project is changed.
-/

namespace ModuleLink
namespace Xcode

open Plist Text

/-- No object that is there was added twice. -/
def Graph.AddsOnce (g : Graph) : Prop := ∀ id, g.contains id = true → g.added.count id ≤ 1

variable {L : Layout} {lead gap : List Filler} {g g₀ : Graph} {k : Kind} {l : ObjectLines} {isa : String}

/-! ## New objects and new kinds -/

/-- Sorting by distinct names gives an ascending list. -/
theorem pairwise_mergeSort_of_nodup {α : Type} (key : α → String) {xs : List α} (hnodup : (xs.map key).Nodup) :
    (xs.mergeSort fun a b => decide (key a ≤ key b)).Pairwise fun a b => key a < key b := by
  have hsorted : (xs.mergeSort fun a b => decide (key a ≤ key b)).Pairwise fun a b => decide (key a ≤ key b) = true := by
    refine List.pairwise_mergeSort (fun a b c hab hbc => ?_) (fun a b => ?_) xs
    · exact decide_eq_true (le_trans (of_decide_eq_true hab) (of_decide_eq_true hbc))
    · rcases le_total (key a) (key b) with hle | hle <;> simp [hle]
  have hne : (xs.mergeSort fun a b => decide (key a ≤ key b)).Pairwise fun a b => key a ≠ key b :=
    List.pairwise_map.mp (((List.mergeSort_perm xs _).map key).nodup_iff.mpr hnodup)
  exact (hsorted.and hne).imp fun hab => lt_of_le_of_ne (of_decide_eq_true hab.1) hab.2

theorem pairwise_newIsas (g : Graph) : g.newIsas.Pairwise (· < ·) :=
  (List.pairwise_map.mpr (pairwise_mergeSort_of_nodup _ (nodup_grouped _))).sublist List.filter_sublist

/-- Kinds with new objects are no kinds without any. -/
theorem newcomers_ne_nil (hisa : (g.addedObjects.lookup isa).isSome = true) : g.newcomers isa ≠ [] := by
  obtain ⟨os, hos⟩ := Option.isSome_iff_exists.mp hisa
  have hne : os ≠ [] := ne_nil_of_mem_grouped (Dict.mem_of_lookup hos)
  have hperm : (g.newcomers isa).Perm os := by
    rw [Graph.newcomers, hos]
    exact List.mergeSort_perm _ _
  intro hnil
  rw [hnil] at hperm
  exact hne hperm.nil_eq.symm

theorem nodup_added (honce : g.AddsOnce) : ((g.added.filterMap g.get?).map Object.id).Nodup := by
  rw [map_id_filterMap (fun id o hget => (Graph.get?_mem hget).2), List.nodup_iff_count_le_one]
  intro id
  by_cases hthere : g.contains id = true
  · exact (List.filter_sublist.count_le id).trans (honce id hthere)
  · have hnone : (g.added.filter fun id => (g.get? id).isSome).count id = 0 :=
      List.count_eq_zero_of_not_mem fun hin => hthere (List.mem_filter.mp hin).2
    rw [hnone]
    exact Nat.zero_le 1

theorem pairwise_newcomers (honce : g.AddsOnce) (isa : String) :
    (g.newcomers isa).Pairwise fun a b => a.id < b.id := by
  refine pairwise_mergeSort_of_nodup Object.id ?_
  have hgroup : (g.addedObjects.lookup isa).getD [] = (g.added.filterMap g.get?).filter fun o => o.isa == isa :=
    lookup_grouped _ isa
  rw [hgroup]
  exact (nodup_added honce).sublist (List.filter_sublist.map _)

/-! ## Sections that stay in order -/

namespace Writer

variable (w : Writer L g)

theorem pairwise_newLines (honce : g.AddsOnce) (isa : String) : (w.newLines isa).Pairwise fun a b => a.id < b.id := by
  rw [newLines, List.pairwise_map]
  refine (pairwise_newcomers honce isa).imp_of_mem fun {a b} ha hb hab => ?_
  rwa [w.new_id isa a ha, w.new_id isa b hb]

theorem newLines_ne_nil (hisa : (g.addedObjects.lookup isa).isSome = true) : w.newLines isa ≠ [] := by
  rw [newLines, Ne, List.map_eq_nil_iff]
  exact newcomers_ne_nil hisa

theorem objects_newKinds_ne_nil (hk : k ∈ w.newKinds) : k.objects ≠ [] := by
  have hisa : k.isa ∈ g.newIsas := by
    rw [← w.map_isa_newKinds]
    exact List.mem_map_of_mem hk
  obtain ⟨group, hgroup, hgroupIsa⟩ := List.mem_map.mp (List.mem_filter.mp hisa).1
  rw [w.objects_newKinds hk]
  refine w.newLines_ne_nil (Option.isSome_iff_exists.mpr ⟨group.2, ?_⟩)
  rw [← hgroupIsa]
  exact Dict.lookup_of_mem (nodup_grouped _) (mem_newGroups.mp hgroup)

/-- A section of new objects is in order. -/
theorem isOrdered_of_new (honce : g.AddsOnce) (hk : k ∈ w.newKinds) : k.IsOrdered where
  filled := w.objects_newKinds_ne_nil hk
  sorted := by
    rw [w.objects_newKinds hk, List.pairwise_map]
    exact w.pairwise_newLines honce k.isa
  tight f hf := by
    rw [w.parts_newKinds hk] at hf
    obtain ⟨l, -, hl⟩ := List.mem_map.mp hf
    contradiction

/-- What has become of a section that is kept has objects. -/
theorem objects_refill_ne_nil (hkept : g.loses k = false) :
    (w.refill k).objects ≠ [] := by
  rw [w.objects_refill]
  rw [Graph.loses, Bool.and_eq_false_iff] at hkept
  rcases hkept with hstays | hnew
  · obtain ⟨l, hl, hremoved⟩ := List.all_eq_false.mp hstays
    exact weave_ne_nil ⟨l, hl, by rw [Writer.image, if_neg hremoved]; simp⟩
  · have hsome : (g.addedObjects.lookup k.isa).isSome = true := by simpa using hnew
    obtain ⟨l, hl⟩ := List.exists_mem_of_ne_nil _ (w.newLines_ne_nil hsome)
    exact List.ne_nil_of_mem (mem_weave.mpr (.inl hl))

/-- The sections that a text is left with are those of old ones that are kept and those of new objects. -/
theorem mem_kinds (hk : k ∈ w.kinds) :
    k ∈ w.newKinds ∨ ∃ k₀ ∈ kindsIn L.blocks, g.loses k₀ = false ∧ k = w.refill k₀ := by
  rcases mem_weave.mp hk with hk | ⟨k₀, hk₀, hk⟩
  · exact .inl hk
  · cases hlost : g.loses k₀ with
    | true =>
      rw [w.kept_of_loses hlost] at hk
      contradiction
    | false =>
      rw [w.kept_of_not_loses hlost] at hk
      exact .inr ⟨k₀, hk₀, hlost, List.mem_singleton.mp hk⟩

theorem objects_ne_nil_of_kinds (hk : k ∈ w.kinds) : k.objects ≠ [] := by
  rcases w.mem_kinds hk with hk | ⟨k₀, -, hkept, rfl⟩
  · exact w.objects_newKinds_ne_nil hk
  · exact w.objects_refill_ne_nil hkept

end Writer

namespace Rewrites

/-- What was added is not an object of the text that is still there. -/
theorem id_ne_of_newLines (h : Rewrites L lead gap g) (w : Writer L g) (hk : k ∈ kindsIn L.blocks) {n l : ObjectLines}
    (hn : n ∈ w.newLines isa) (hl : l ∈ k.objects) (hremoved : l.id ∉ g.removed) : n.id ≠ l.id := by
  obtain ⟨hadded, -⟩ := h.exists_kept (mem_objects_of_kind hk hl) hremoved
  obtain ⟨o, ho, rfl⟩ := List.mem_map.mp hn
  intro heq
  rw [w.new_id isa o ho] at heq
  exact hadded (heq ▸ (mem_newcomers ho).1)

/-- What has become of a section in order that is kept is in order. -/
theorem isOrdered_refill (h : Rewrites L lead gap g) (w : Writer L g) (honce : g.AddsOnce) (hk : k ∈ kindsIn L.blocks)
    (hordered : k.IsOrdered) (hkept : g.loses k = false) : (w.refill k).IsOrdered where
  filled := w.objects_refill_ne_nil hkept
  sorted := by
    rw [w.objects_refill, List.pairwise_map]
    refine pairwise_weave (w.pairwise_newLines honce k.isa) (List.pairwise_map.mp hordered.sorted)
      (fun l _ => .inl fun _ => rfl) (fun l _ => ?_) fun n hn l hl himage => ?_
    · rw [Writer.image]
      split
      · exact .inl rfl
      · exact .inr ⟨_, rfl, w.again_id l⟩
    · obtain ⟨l', hl'⟩ := List.exists_mem_of_ne_nil _ himage
      exact h.id_ne_of_newLines w hk hn hl (w.mem_image hl').1
  tight f hf := by
    rcases mem_weave.mp hf with hf | ⟨p, hp, hf⟩
    · obtain ⟨l, -, hl⟩ := List.mem_map.mp hf
      contradiction
    · cases p with
      | filler f' =>
        obtain rfl := Part.filler.inj (List.mem_singleton.mp hf)
        exact hordered.tight f hp
      | object l =>
        obtain ⟨l', -, hl'⟩ := List.mem_map.mp hf
        contradiction

/-- No object is written twice in a section. -/
theorem nodup_ids_refill (h : Rewrites L lead gap g) (w : Writer L g) (honce : g.AddsOnce) (hk : k ∈ kindsIn L.blocks) :
    ((w.refill k).objects.map ObjectLines.id).Nodup := by
  rw [w.objects_refill, ((perm_weave _ _).map _).nodup_iff, List.map_append, List.nodup_append]
  refine ⟨?_, w.map_id_images _ ▸ (nodup_ids_of_kind hk).filter _, ?_⟩
  · exact List.pairwise_map.mpr ((w.pairwise_newLines honce k.isa).imp fun hlt => ne_of_lt hlt)
  · intro id hid id' hid'
    obtain ⟨n, hn, rfl⟩ := List.mem_map.mp hid
    obtain ⟨l', hl', rfl⟩ := List.mem_map.mp hid'
    obtain ⟨l, hl, hl'⟩ := List.mem_flatMap.mp hl'
    obtain ⟨hremoved, rfl⟩ := w.mem_image hl'
    rw [w.again_id]
    exact h.id_ne_of_newLines w hk hn hl hremoved

/-- A kind with new objects and a section has no new section. -/
theorem ne_isa_of_newKinds (h : Rewrites L lead gap g) (w : Writer L g) {new : Kind} (hnew : new ∈ w.newKinds)
    (hk : k ∈ kindsIn L.blocks) : new.isa ≠ k.isa := by
  have hisa : new.isa ∈ g.newIsas := by
    rw [← w.map_isa_newKinds]
    exact List.mem_map_of_mem hnew
  have hnone : ∀ s ∈ g.sections, s.isa ≠ new.isa := by simpa using (List.mem_filter.mp hisa).2
  obtain ⟨pre, post, hkinds⟩ := List.append_of_mem hk
  exact (hnone _ (h.section_placeBehind hkinds)).symm

/-- The sections stand in the order of their kinds. -/
theorem pairwise_kinds (h : Rewrites L lead gap g) (w : Writer L g) : (w.kinds.map Kind.isa).Pairwise (· < ·) := by
  have hnews : w.newKinds.Pairwise fun a b => a.isa < b.isa := by
    rw [← List.pairwise_map, w.map_isa_newKinds]
    exact pairwise_newIsas g
  rw [List.pairwise_map]
  refine pairwise_weave hnews (List.pairwise_map.mp h.spaced.sorted) (fun k _ => ?_) (fun k _ => ?_)
    fun new hnew k hk _ => h.ne_isa_of_newKinds w hnew hk
  · cases hlost : g.loses k with
    | true => exact .inr ⟨w.kept_of_loses hlost, goesBefore_of_loses hlost⟩
    | false => exact .inl fun new => by rw [Graph.goesBefore, hlost, Bool.not_false, Bool.and_true]
  · cases hlost : g.loses k with
    | true => exact .inl (w.kept_of_loses hlost)
    | false => exact .inr ⟨_, w.kept_of_not_loses hlost, rfl⟩

/-- What is written in a section is an object of its kind. -/
theorem exists_object (h : Rewrites L lead gap g) (w : Writer L g) (hk : k ∈ w.kinds) (hl : l ∈ k.objects) :
    ∃ o ∈ g.objects, o.id = l.id ∧ o.isa = k.isa := by
  have hnew {isa : String} (hl : l ∈ w.newLines isa) : ∃ o ∈ g.objects, o.id = l.id ∧ o.isa = isa := by
    obtain ⟨o, ho, rfl⟩ := List.mem_map.mp hl
    obtain ⟨-, hin, hisa⟩ := mem_newcomers ho
    exact ⟨o, hin, (w.new_id isa o ho).symm, hisa⟩
  rcases w.mem_kinds hk with hk | ⟨k₀, hk₀, -, rfl⟩
  · rw [w.objects_newKinds hk] at hl
    exact hnew hl
  · rw [w.objects_refill] at hl
    rcases mem_weave.mp hl with hl | ⟨l₀, hl₀, hl⟩
    · exact hnew hl
    · obtain ⟨hremoved, rfl⟩ := w.mem_image hl
      obtain ⟨-, o, ho, hid, hisa, -⟩ := h.exists_kept (mem_objects_of_kind hk₀ hl₀) hremoved
      exact ⟨o, ho, hid.trans (w.again_id l₀).symm, hisa.trans (k₀.own l₀ (Layout.mem_kind_objects.mp hl₀))⟩

/-- No object is written twice. -/
theorem nodup_ids_kinds (h : Rewrites L lead gap g) (w : Writer L g) (honce : g.AddsOnce) :
    ((w.kinds.flatMap Kind.objects).map ObjectLines.id).Nodup := by
  obtain ⟨source, g₀, -, hfollows, -⟩ := h.changed
  rw [List.map_flatMap, List.nodup_flatMap]
  constructor
  · intro k hk
    rcases w.mem_kinds hk with hk | ⟨k₀, hk₀, -, rfl⟩
    · exact (w.isOrdered_of_new honce hk).sorted.imp fun hlt => ne_of_lt hlt
    · exact h.nodup_ids_refill w honce hk₀
  · refine (List.pairwise_map.mp (h.pairwise_kinds w)).imp_of_mem fun {a b} ha hb hlt => ?_
    -- One object is not of two kinds.
    rintro id hin hin'
    obtain ⟨l, hl, rfl⟩ := List.mem_map.mp hin
    obtain ⟨l', hl', hid⟩ := List.mem_map.mp hin'
    obtain ⟨o, ho, hoid, hisa⟩ := h.exists_object w ha hl
    obtain ⟨o', ho', hoid', hisa'⟩ := h.exists_object w hb hl'
    obtain rfl : o = o' := List.inj_on_of_nodup_map hfollows.nodup ho ho' (hoid.trans (hid.symm.trans hoid'.symm))
    exact ne_of_lt hlt (hisa.symm.trans hisa')

/-- What the edits make of the text. -/
theorem text_eq_of_written (h : Rewrites L lead gap g) {fs : List Filler} {ks : List Kind} {t : List Char}
    (hwritten : written g.editsInOrder L.head.length (L.cells.map Cell.text) = fillersText fs ++ kindsText ks)
    (ht : applyEdits g.text g.edits = .ok t) : t = L.head ++ (fillersText fs ++ kindsText ks) ++ L.closing := by
  obtain ⟨source, g₀, hload, hfollows, -⟩ := h.changed
  have hnonempty : ∀ c ∈ L.cells.map Cell.text, c ≠ [] := by
    intro c hc
    obtain ⟨c, -, rfl⟩ := List.mem_map.mp hc
    exact c.text_ne_nil
  rw [h.laid.text, Layout.text, textOf] at ht
  rw [applyEdits_eq_written hnonempty (fun e he => (hfollows.fits_edits (loaded_of_load hload).toLaid he).1) ht, ← hwritten]
  rfl

/-- What a changed graph is written as has its sections in order again. -/
theorem exists_spaced (h : Rewrites L lead gap g) (w : Writer L g) (honce : g.AddsOnce) {t : List Char}
    (ht : applyEdits g.text g.edits = .ok t) :
    ∃ (L' : Layout) (gap' : List Filler), L'.IsSpaced lead gap' ∧ L'.text = t ∧ kindsIn L'.blocks = w.kinds ∧
      L'.head = L.head ∧ L'.closing = L.closing ∧ ((∃ k ∈ kindsIn L.blocks, g.loses k = false) → gap' = gap) := by
  obtain ⟨gap', hgap, hwritten, hkept⟩ := h.exists_written w
  obtain ⟨L', hhead, hclosing, hkinds, hspaced⟩ := L.exists_withKinds hgap (h.pairwise_kinds w)
    (fun k hk => w.objects_ne_nil_of_kinds hk) (h.nodup_ids_kinds w honce)
  refine ⟨L', gap', hspaced, ?_, hkinds, hhead, hclosing, hkept⟩
  rw [hspaced.text_eq, hhead, hclosing, hkinds, h.text_eq_of_written hwritten ht]

end Rewrites

/-! ## Texts in Xcode layout -/

section Layouts

variable {source : String} {changes : List Change} {t : List Char}

/-- A project that was read from a text with its sections in order and was changed, and was written. -/
theorem Follows.rewrites (hfollows : Follows g₀ g) (hspaced : L.IsSpaced lead gap)
    (hload : Graph.load source L.text = .ok g₀) (hkinds : KeepsKinds g₀ g) (hunmarked : g.WritesNoMarkers)
    (ht : applyEdits g.text g.edits = .ok t) : Rewrites L lead gap g where
  spaced := hspaced
  changed := ⟨source, g₀, hload, hfollows, hkinds⟩
  pairwise := by
    have hfits : ∀ e ∈ g.edits, e.start ≤ e.stop := fun e he =>
      (hfollows.fits_edits (loaded_of_load hload).toLaid he).1.ordered
    exact (pairwise_mergeSort_iff hfits).mpr ((exists_applyEdits_iff hfits).mp ⟨t, ht⟩)
  unmarked := hunmarked

theorem keepsKinds_refl (hnodup : g.ids.Nodup) : KeepsKinds g g := fun o ho _ p hp hid => by
  rw [List.inj_on_of_nodup_map hnodup hp ho hid]

/-- A project in order is in order again however it was changed, if no object that is there was added twice and no line
that was written for an object starts like that of a marker. -/
theorem isOrdered_of_changed (hordered : L.IsOrdered lead gap) (hload : Graph.load source L.text = .ok g₀)
    (hchanges : ∀ c ∈ changes, c.IsProper) (honce : (g₀.changed changes).AddsOnce)
    (hunmarked : (g₀.changed changes).WritesNoMarkers) (ht : (g₀.changed changes).serialise = .ok t) :
    ∃ (L' : Layout) (gap' : List Filler), L'.IsOrdered lead gap' ∧ L'.text = t := by
  have hread := loaded_of_load hload
  obtain ⟨hspaced, hkinds⟩ := Layout.isOrdered_iff.mp hordered
  have happly := applyEdits_of_serialise ht
  have hrewrites := (hread.follows.changed hchanges).rewrites hspaced hload
    (hread.follows.keepsKinds_changed (keepsKinds_refl hread.follows.nodup) hchanges) hunmarked happly
  obtain ⟨w⟩ := hrewrites.nonempty_writer
  obtain ⟨L', gap', hspaced', htext, hin, -⟩ := hrewrites.exists_spaced w honce happly
  refine ⟨L', gap', Layout.isOrdered_iff.mpr ⟨hspaced', fun k hk => ?_⟩, htext⟩
  rw [hin] at hk
  rcases w.mem_kinds hk with hk | ⟨k₀, hk₀, hkept, rfl⟩
  · exact w.isOrdered_of_new honce hk
  · exact hrewrites.isOrdered_refill w honce hk₀ (hkinds k₀ hk₀) hkept

theorem isOrdered_groupsLayout : groupsLayout.IsOrdered [] [] where
  blocks := rfl
  gap := .inr ⟨rfl, by simp⟩
  sorted := by decide
  kinds k hk := by
    obtain rfl := List.mem_singleton.mp hk
    exact { filled := by decide
            sorted := by decide
            tight := fun f hf => by simp at hf }

instance : DecidablePred Object.OnLine := fun _ => inferInstanceAs (Decidable (_ ∉ _))

/-- A group is added to a project of two groups, and an object of a kind that has no section. -/
def partsAdded : List Change := [.add "PBXGroup" [] none "s", .add "PBXBuildFile" [] (some "b.m in Sources") "b"]

theorem partsAdded_isProper : ∀ c ∈ partsAdded, c.IsProper := by
  simp only [partsAdded, List.forall_mem_cons]
  refine ⟨⟨⟨by decide, List.all_eq_true.mp (by decide)⟩, by simp, by simp⟩,
    ⟨⟨by decide, List.all_eq_true.mp (by decide)⟩, by simp, fun d hd => ?_⟩, nofun⟩
  obtain rfl := Option.some.inj hd
  exact ⟨by decide, fun hin => absurd (hin.subset List.mem_cons_self) (by decide)⟩

/-- The new group stands in the section of groups, and a new section in front of it. -/
theorem isOrdered_of_changed_groupsLayout : groupsLayout.IsOrdered [] [] ∧
    ∃ g₀ t, Graph.load "project" groupsLayout.text = .ok g₀ ∧ (∀ c ∈ partsAdded, c.IsProper) ∧
      (g₀.changed partsAdded).AddsOnce ∧ (g₀.changed partsAdded).WritesNoMarkers ∧
      (g₀.changed partsAdded).serialise = .ok t ∧
      ∃ (L' : Layout) (gap' : List Filler), L'.IsOrdered [] gap' ∧ L'.text = t := by
  obtain ⟨g₀, hload, hread, -⟩ := groupsLayout.load_text "project"
  have hstate : (Graph.load "project" groupsLayout.text).toOption.any (fun g =>
      (g.changed partsAdded).textEdits.isEmpty && decide (g.changed partsAdded).added.Nodup &&
      (g.changed partsAdded).objects.all fun o => decide o.OnLine) = true := by decide +kernel
  simp only [hload, Except.toOption, Option.any_some, Bool.and_eq_true, List.isEmpty_iff, decide_eq_true_eq,
    List.all_eq_true] at hstate
  obtain ⟨⟨hnone, hnodup⟩, honLine⟩ := hstate
  have htabs : (groupsLayout.objects.all fun l => l.indent.head? == some '\t') = true := by decide +kernel
  have hfollows := hread.follows.changed partsAdded_isProper
  have hunmarked := hfollows.writesNoMarkers hread.toLaid
    (fun l hl => eq_of_beq (List.all_eq_true.mp htabs l hl)) honLine
  have honce : (g₀.changed partsAdded).AddsOnce := fun id _ => List.nodup_iff_count_le_one.mp hnodup id
  obtain ⟨t, ht⟩ := (hfollows.laid hread.toLaid).exists_serialise_of_insertions hnone
  exact ⟨isOrdered_groupsLayout, g₀, t, hload, partsAdded_isProper, honce, hunmarked, ht,
    isOrdered_of_changed isOrdered_groupsLayout hload partsAdded_isProper honce hunmarked ht⟩

/-! ### A comment with a line like a marker -/

theorem exists_section_of_kind {bs : List Block} (hk : k ∈ kindsIn bs) (offset : Nat) :
    ∃ n, k.section n ∈ sectionsIn offset bs := by
  induction bs generalizing offset with
  | nil => contradiction
  | cons b bs ih =>
    cases b with
    | filler f => exact ih hk _
    | kind k' =>
      rcases List.mem_cons.mp hk with rfl | hk
      · exact ⟨offset, List.mem_cons_self ..⟩
      · obtain ⟨n, hn⟩ := ih hk (offset + (textOf k'.cells).length)
        exact ⟨n, List.mem_cons_of_mem _ hn⟩

/-- In a project in Xcode layout every object is a member of a section. -/
theorem exists_member_of_load (hload : Graph.load source L.text = .ok g) {o : Object} (ho : o ∈ g.objects) :
    ∃ s ∈ g.sections, o.id ∈ s.members := by
  rw [(loaded_of_load hload).objects, Layout.objects, Layout.cells, objectsIn_cellsOf] at ho
  obtain ⟨l, hl, rfl⟩ := List.mem_map.mp ho
  obtain ⟨k, hk, hl⟩ := List.mem_flatMap.mp hl
  obtain ⟨n, hs⟩ := exists_section_of_kind hk L.head.length
  exact ⟨k.section n, sections_eq hload ▸ hs, List.mem_map_of_mem hl⟩

/-- An object is added with a comment whose second line starts like a marker. -/
def markerAdded : List Change := [.add "PBXBuildFile" [] (some "x\n/* Begin PBXBuildFile section") "s"]

/-- The new section seems to start behind its object. -/
theorem not_isOrdered_markerAdded : groupsLayout.IsOrdered [] [] ∧
    ∃ g₀ t, Graph.load "project" groupsLayout.text = .ok g₀ ∧ (∀ c ∈ markerAdded, c.IsProper) ∧
      (g₀.changed markerAdded).AddsOnce ∧ (g₀.changed markerAdded).serialise = .ok t ∧
      ¬ ∃ (L' : Layout) (lead' gap' : List Filler), L'.IsOrdered lead' gap' ∧ L'.text = t := by
  have hproper : ∀ c ∈ markerAdded, c.IsProper := by
    simp only [markerAdded, List.forall_mem_cons]
    refine ⟨⟨⟨by decide, List.all_eq_true.mp (by decide)⟩, by simp, fun d hd => ?_⟩, nofun⟩
    obtain rfl := Option.some.inj hd
    exact ⟨by decide, fun hin => absurd hin (by decide)⟩
  have hstate : (Graph.load "project" groupsLayout.text).toOption.any (fun g =>
      decide (g.changed markerAdded).added.Nodup && (g.changed markerAdded).serialise.toOption.any fun t =>
        (Graph.load "project" t).toOption.any fun g' =>
          g'.objects.any fun o => g'.sections.all fun s => !s.members.contains o.id) = true := by decide +kernel
  obtain ⟨g₀, hload, -⟩ := groupsLayout.load_text "project"
  rw [hload, Except.toOption, Option.any_some, Bool.and_eq_true, decide_eq_true_eq] at hstate
  obtain ⟨hnodup, hstate⟩ := hstate
  refine ⟨isOrdered_groupsLayout, g₀, ?_⟩
  cases ht : (g₀.changed markerAdded).serialise with
  | error f =>
    rw [ht] at hstate
    contradiction
  | ok t =>
    refine ⟨t, hload, hproper, fun id _ => List.nodup_iff_count_le_one.mp hnodup id, rfl, ?_⟩
    rintro ⟨L', lead', gap', -, rfl⟩
    obtain ⟨g', hload', -⟩ := L'.load_text "project"
    rw [ht, Except.toOption, Option.any_some, hload', Except.toOption, Option.any_some] at hstate
    obtain ⟨o, ho, hout⟩ := List.any_eq_true.mp hstate
    obtain ⟨s, hs, hmember⟩ := exists_member_of_load hload' ho
    have hnone := List.all_eq_true.mp hout s hs
    rw [List.contains_iff_mem.mpr hmember] at hnone
    contradiction

end Layouts

end Xcode
end ModuleLink
