import Mathlib
import ModuleLink.Proofs.Xcode.Rendered
import ModuleLink.Proofs.Xcode.Undo

/-!
Additions to a project, written, read again and taken back.  What is written then is the text that the additions were made
to, whatever order they are taken back in.
-/

namespace ModuleLink
namespace Xcode

open Plist Text

variable {L L₀ : Layout} {lead gap : List Filler} {source source₀ : String} {g₀ g₁ g : Graph} {l : ObjectLines}
  {o : Object} {c : Change} {changes undone : List Change} {id : String}

/-! ## Writing what was removed from -/

/-- A graph is written where the last section is kept. -/
theorem Layout.IsSpaced.exists_serialise (h : L.IsSpaced lead gap) (hload : Graph.load source L.text = .ok g₀)
    (hfollows : Follows g₀ g) (honce : g.Once)
    (hlost : ∀ k ∈ kindsIn L.blocks, g.loses k = true → ∃ k' ∈ kindsIn L.blocks, k.isa < k'.isa) :
    ∃ t, g.serialise = .ok t := by
  refine (hfollows.serialises_iff hload honce).mpr ?_
  rintro ⟨-, -, s, hs, -, hdropped, -, hend⟩
  have htext : g₀.text = L.text := (loaded_of_load hload).toLaid.text
  rw [sections_eq hload] at hs
  obtain ⟨pre, k, post, hkinds, rfl⟩ := h.exists_section hs
  have hk : k ∈ kindsIn L.blocks := hkinds ▸ by simp
  rw [isDropped_section (h.filled k hk)] at hdropped
  cases post with
  | cons k' post =>
    rw [htext, h.startsWith_newline hkinds] at hend
    contradiction
  | nil =>
    -- No section sorts behind the last one.
    obtain ⟨k', hk', hlt⟩ := hlost k hk hdropped
    have hsorted := h.sorted
    rw [hkinds, List.map_append, List.pairwise_append] at hsorted
    rw [hkinds, List.mem_append, List.mem_singleton] at hk'
    rcases hk' with hk' | rfl
    · exact absurd (lt_trans hlt (hsorted.2.2 _ (List.mem_map_of_mem hk') _ (by simp))) (lt_irrefl _)
    · exact absurd hlt (lt_irrefl _)

/-- A text that was extended is written again when its objects, and no others, are there. -/
theorem Layout.IsRendered.serialise_restored (h : L.IsRendered lead gap) (hload : Graph.load source L.text = .ok g₁)
    (hfollows : Follows g₁ g) (hkinds : KeepsKinds g₁ g) (honce : g.Once) (hadded : g.added = [])
    (honLine : ∀ l ∈ L.objects, l.id ∈ g.touched → isInlineKind l.object.isa = true → l.object.OnLine)
    (h₀ : L₀.IsRendered lead gap) (hload₀ : Graph.load source₀ L₀.text = .ok g₀) (hne : kindsIn L₀.blocks ≠ [])
    (hextends : L₀.Extends L)
    (hsorted : ∀ k ∈ kindsIn L.blocks, (∃ k₀ ∈ kindsIn L₀.blocks, k.isa = k₀.isa) ∨
      ∃ k₀ ∈ kindsIn L₀.blocks, k.isa < k₀.isa)
    (hsame : ∀ id, g.get? id = g₀.get? id) : g.serialise = .ok L₀.text := by
  have hread₀ := loaded_of_load hload₀
  have hobjects : ∀ o ∈ g.objects, ∃ l ∈ L₀.objects, o = l.object := by
    intro o ho
    have hget := Graph.get?_of_mem hfollows.nodup ho
    rw [hsame] at hget
    have hin := (Graph.get?_mem hget).1
    rw [hread₀.objects] at hin
    obtain ⟨l, hl, rfl⟩ := List.mem_map.mp hin
    exact ⟨l, hl, rfl⟩
  have hkept : ∀ l ∈ L₀.objects, l.id ∉ g.removed := by
    intro l hl
    have hget : g₀.get? l.id = some l.object :=
      Graph.get?_of_mem hread₀.follows.nodup (by rw [hread₀.objects]; exact List.mem_map_of_mem hl)
    rw [← hsame] at hget
    rcases hfollows.origin l.object (Graph.get?_mem hget).1 with hnew | ⟨-, hold⟩
    · rw [hadded] at hnew
      exact absurd hnew List.not_mem_nil
    · exact hold
  have hunmarked : g.WritesNoMarkers := by
    refine ⟨fun id hid => absurd (hadded ▸ hid) List.not_mem_nil, fun e he => ?_⟩
    obtain ⟨o, hget, -, -, htext⟩ := h.text_of_changeEdits hload hfollows hkinds honLine he
    obtain ⟨l, hl, rfl⟩ := hobjects o (Graph.get?_mem hget).1
    rw [htext, ← h₀.lines l hl]
    exact l.unmarked
  obtain ⟨t, ht⟩ := h.spaced.exists_serialise hload hfollows honce fun k hk hlost => by
    have hk₀ (k₀ : Kind) (hk₀ : k₀ ∈ kindsIn L₀.blocks) : ∃ k ∈ kindsIn L.blocks, k.isa = k₀.isa ∧ g.loses k = false := by
      obtain ⟨k, hk, hisa, hsub⟩ := hextends.kinds k₀ hk₀
      refine ⟨k, hk, hisa, ?_⟩
      obtain ⟨l, hl⟩ := List.exists_mem_of_ne_nil _ (h₀.spaced.filled k₀ hk₀)
      obtain ⟨l', hl', hid⟩ := List.mem_map.mp (hsub.subset (List.mem_map_of_mem hl))
      rw [Graph.loses, Bool.and_eq_false_iff]
      refine .inl (List.all_eq_false.mpr ⟨l', hl', ?_⟩)
      rw [hid]
      simpa using hkept l (mem_objects_of_kind hk₀ hl)
    rcases hsorted k hk with ⟨k₀, hk₀', hisa⟩ | ⟨k₀, hk₀', hlt⟩
    · obtain ⟨k', hk', hisa', hkeeps⟩ := hk₀ k₀ hk₀'
      obtain rfl : k' = k := List.inj_on_of_nodup_map L.isas_nodup hk' hk (hisa'.trans hisa.symm)
      rw [hkeeps] at hlost
      contradiction
    · obtain ⟨k', hk', hisa', -⟩ := hk₀ k₀ hk₀'
      exact ⟨k', hk', hisa' ▸ hlt⟩
  obtain ⟨L', hrendered, rfl, hextends', hwritten⟩ := h.exists_rewritten hload hfollows hkinds
    (fun id _ => by rw [hadded]; exact Nat.zero_le _) hunmarked honLine h₀ hne hextends hkept ht
  rw [ht, hrendered.text_eq_of_extends h₀ hextends' fun l hl => ?_]
  obtain ⟨o, ho, hobject⟩ := hwritten l hl
  obtain ⟨l₀, hl₀, rfl⟩ := hobjects o ho
  exact ⟨l₀, hl₀, hobject.trans l₀.object_tidy⟩

/-! ## Graphs that have grown -/

/-- Nothing was removed, and what was added is there, was added once and is of the kinds that are added. -/
structure Graph.HasGrown (g : Graph) : Prop where
  removed : g.removed = []
  nodup : g.added.Nodup
  there : ∀ id ∈ g.added, id ∈ g.ids
  kinds : ∀ o ∈ g.objects, o.id ∈ g.added → o.isa ∈ addedKinds

/-- The change adds something. -/
def Change.IsAddition : Change → Prop
  | .add isa .. => isa ∈ addedKinds
  | .appendRef .. | .addSetting .. => True
  | _ => False

theorem Change.Adds.isAddition (hc : c.Adds g) : c.IsAddition := by
  cases c with
  | add => exact hc
  | appendRef | addSetting => trivial
  | remove | touch | removeRef | removeSetting => exact hc.elim

namespace Graph.HasGrown

theorem store_touch (h : g.HasGrown) (ho : o ∈ g.objects) {o' : Object} (hid : o'.id = o.id) (hisa : o'.isa = o.isa) :
    ((g.store o').touch o.id).HasGrown := by
  rw [touch_eq]
  refine ⟨h.removed, h.nodup, fun id hin => ?_, fun p hp hadded => ?_⟩
  · show id ∈ (g.store o').ids
    rw [ids_store]
    exact h.there id hin
  · rcases mem_store hp with rfl | ⟨hp, -⟩
    · rw [hisa]
      exact h.kinds o ho (hid ▸ hadded)
    · exact h.kinds p hp hadded

theorem apply (h : g.HasGrown) (hc : c.IsAddition) (hproper : c.IsProper) : (c.apply g).HasGrown := by
  have hwrites {key : String} (hkey : c.writes? = some key) : (c.apply g).HasGrown := by
    rcases Change.apply_eq_or_store hkey g with heq | ⟨o, ho, v, heq⟩
    · rwa [heq]
    · rw [heq]
      exact h.store_touch ho rfl (Object.isa_setField (hproper.leavesKinds.ne_isa hkey) v)
  cases c with
  | appendRef | addSetting => exact hwrites rfl
  | add isa fields comment seed =>
    rw [Change.apply]
    split
    next g' o hadd =>
      obtain ⟨-, hisa, hid, rfl⟩ := isProper_added hproper.1 hproper.2.1 hproper.2.2 hadd
      have hfree : o.id ∉ g.ids := hid ▸ g.newId_notMem seed
      refine ⟨h.removed, ?_, fun id hin => ?_, fun p hp hadded => ?_⟩
      · refine List.nodup_append.mpr ⟨h.nodup, List.nodup_singleton _, fun id hin id' hin' => ?_⟩
        rw [List.mem_singleton.mp hin']
        rintro rfl
        exact hfree (h.there _ hin)
      · show id ∈ (g.objects ++ [o]).map Object.id
        rw [List.map_append]
        exact List.mem_append.mpr ((List.mem_append.mp hin).imp (h.there id) fun hin => hin)
      · rcases List.mem_append.mp hp with hp | hp
        · refine h.kinds p hp ((List.mem_append.mp hadded).resolve_right fun hin => ?_)
          exact hfree (List.mem_singleton.mp hin ▸ List.mem_map_of_mem hp)
        · rw [List.mem_singleton.mp hp, hisa]
          exact hc
    · exact h
  | remove | touch | removeRef | removeSetting => exact absurd hc id

theorem changed (h : g.HasGrown) (hchanges : ∀ c ∈ changes, c.IsAddition ∧ c.IsProper) :
    (g.changed changes).HasGrown := by
  induction changes generalizing g with
  | nil => exact h
  | cons c changes ih =>
    obtain ⟨hc, hrest⟩ := List.forall_mem_cons.mp hchanges
    exact ih (h.apply hc.1 hc.2) hrest

theorem addsOnce (h : g.HasGrown) : g.AddsOnce := fun id _ => List.nodup_iff_count_le_one.mp h.nodup id

end Graph.HasGrown

theorem hasGrown_of_loaded (h : Loaded L g) : g.HasGrown := by
  have hadded := h.added
  exact ⟨h.removed, by rw [hadded]; exact .nil, fun id hid => by simp [hadded] at hid,
    fun o _ hid => by simp [hadded] at hid⟩

theorem isAddition_of_gains (hgains : g.Gains changes) : ∀ c ∈ changes, c.IsAddition := by
  induction changes generalizing g with
  | nil => simp
  | cons c changes ih => exact List.forall_mem_cons.mpr ⟨hgains.1.isAddition, ih hgains.2⟩

/-- Taking away adds nothing. -/
theorem added_changed_of_takes (htakes : ∀ c ∈ undone, c.Takes) : (g.changed undone).added = g.added := by
  induction undone generalizing g with
  | nil => rfl
  | cons c undone ih =>
    obtain ⟨hc, hrest⟩ := List.forall_mem_cons.mp htakes
    have hwrites {key : String} (hkey : c.writes? = some key) : (c.apply g).added = g.added := by
      rcases Change.apply_eq_or_store hkey g with heq | ⟨o, -, v, heq⟩
      · rw [heq]
      · rw [heq, touch_eq]
        rfl
    refine (ih hrest).trans ?_
    cases c with
    | remove id =>
      show (g.removeObject id).1.added = g.added
      rw [Graph.removeObject]
      split
      · rfl
      · dsimp only
        split <;> rfl
    | removeRef | removeSetting => exact hwrites rfl
    | add | touch | appendRef | addSetting => exact hc.elim

theorem Object.onLine_tidy (ho : o.IsProper) : o.tidy.OnLine ↔ o.OnLine := by
  rw [OnLine, ho.renderObject_tidy, OnLine]

/-! ## Additions and back -/

/-- Additions to a project in Xcode layout can be written and read again, and taking all of them back, in whatever order,
gives the old text, as long as no object that is written on one line holds a line break and nothing that is written
looks like a marker. -/
theorem serialise_undone (hrendered : L.IsRendered lead gap) (hproject : "PBXProject" ∈ (kindsIn L.blocks).map Kind.isa)
    (hload : Graph.load source L.text = .ok g₀) (hgains : g₀.Gains changes) (hproper : ∀ c ∈ changes, c.IsProper)
    (honLine : ∀ o ∈ g₀.objects ++ (g₀.changed changes).objects, isInlineKind o.isa = true → o.OnLine)
    (hunmarked : (g₀.changed changes).WritesNoMarkers) (hundone : undone.Perm (g₀.undoing changes)) :
    ∃ t g₁, (g₀.changed changes).serialise = .ok t ∧ Graph.load source t = .ok g₁ ∧
      (g₁.changed undone).serialise = .ok L.text := by
  have hread := loaded_of_load hload
  have hfollows := hread.follows.changed hproper
  have hgrown := (hasGrown_of_loaded hread).changed fun c hc => ⟨isAddition_of_gains hgains c hc, hproper c hc⟩
  have hkinds := hread.follows.keepsKinds_changed (keepsKinds_refl hread.follows.nodup) hproper
  obtain ⟨k₀, hk₀, hprojectKind⟩ := List.mem_map.mp hproject
  have hne : kindsIn L.blocks ≠ [] := List.ne_nil_of_mem hk₀
  -- Nothing is lost at first.
  obtain ⟨t, ht⟩ := hrendered.spaced.exists_serialise hload hfollows ((once_of_loaded hread).changed changes)
    fun k hk hlost => by
      obtain ⟨l, hl⟩ := List.exists_mem_of_ne_nil _ (hrendered.spaced.filled k hk)
      have hall := List.all_eq_true.mp (Bool.and_eq_true_iff.mp hlost).1 l hl
      rw [hgrown.removed] at hall
      contradiction
  obtain ⟨L₁, hrendered₁, rfl, hextends, hwritten⟩ := hrendered.exists_rewritten hload hfollows hkinds hgrown.addsOnce
    hunmarked (fun l hl _ => honLine l.object (by
      rw [hread.objects]
      exact List.mem_append_left _ (List.mem_map_of_mem hl)))
    hrendered hne L.extends_refl (fun l _ => by rw [hgrown.removed]; exact List.not_mem_nil) ht
  obtain ⟨g₁, hload₁, hmatches, -⟩ := hfollows.load_serialise hread ht source
  refine ⟨L₁.text, g₁, ht, hload₁, ?_⟩
  have hread₁ := loaded_of_load hload₁
  have hproper' : ∀ c ∈ undone, c.IsProper := fun c hc => isProper_undoing hproper c (hundone.mem_iff.mp hc)
  have htakes : ∀ c ∈ undone, c.Takes := fun c hc => Graph.takes_undoing hgains c (hundone.mem_iff.mp hc)
  have hfollows₁ := hread₁.follows.changed hproper'
  refine hrendered₁.serialise_restored hload₁ hfollows₁
    (hread₁.follows.keepsKinds_changed (keepsKinds_refl hread₁.follows.nodup) hproper')
    ((once_of_loaded hread₁).changed undone) (by rw [added_changed_of_takes htakes, hread₁.added]) ?_
    hrendered hload hne hextends ?_ ?_
  · intro l hl _ hinline
    obtain ⟨o, ho, hobject⟩ := hwritten l hl
    rw [hobject, Object.isa_tidy] at hinline
    rw [hobject, Object.onLine_tidy (hfollows.proper o ho)]
    exact honLine o (List.mem_append_right _ ho) hinline
  · -- A section that was added sorts in front of that of the project.
    intro k hk
    obtain ⟨l, hl⟩ := List.exists_mem_of_ne_nil _ (hrendered₁.spaced.filled k hk)
    obtain ⟨o, ho, hobject⟩ := hwritten l (mem_objects_of_kind hk hl)
    have hisa : o.isa = k.isa := by
      rw [← k.own l (Layout.mem_kind_objects.mp hl), hobject, Object.isa_tidy]
    rcases hfollows.origin o ho with hnew | ⟨hold, -⟩
    · refine .inr ⟨k₀, hk₀, ?_⟩
      have hkind := hgrown.kinds o ho hnew
      rw [hisa] at hkind
      rw [hprojectKind]
      revert hkind
      generalize k.isa = isa
      revert isa
      show ∀ isa ∈ addedKinds, isa < "PBXProject"
      decide
    · obtain ⟨o₀, ho₀, hid⟩ := List.mem_map.mp hold
      rw [hread.objects] at ho₀
      obtain ⟨l₀, hl₀, rfl⟩ := List.mem_map.mp ho₀
      have hkind := hkinds l₀.object (by
        rw [hread.objects]
        exact List.mem_map_of_mem hl₀) (by rw [hgrown.removed]; exact List.not_mem_nil) o ho hid.symm
      rw [Layout.objects, Layout.cells, objectsIn_cellsOf] at hl₀
      obtain ⟨k', hk', hl₀⟩ := List.mem_flatMap.mp hl₀
      exact .inl ⟨k', hk', by rw [← hisa, hkind, k'.own l₀ (Layout.mem_kind_objects.mp hl₀)]⟩
  · intro id
    cases hget : g₀.get? id with
    | some o =>
      obtain ⟨ho, rfl⟩ := Graph.get?_mem hget
      have htidy : o.tidy = o := by
        rw [hread.objects] at ho
        obtain ⟨l, -, rfl⟩ := List.mem_map.mp ho
        exact l.object_tidy
      rw [hread.follows.get?_changed_undone hgains hproper hmatches hread₁.follows hundone hget, htidy]
    | none =>
      refine get?_changed_eq_none htakes ?_
      rw [Graph.get?_eq_none_iff] at hget
      by_cases hin : id ∈ (g₀.changed changes).ids
      · exact .inl (hundone.mem_iff.mpr (remove_mem_undoing hgains hin hget))
      · right
        rw [hmatches.get?, Graph.get?_eq_none_iff.mpr hin]
        rfl

/-! ## A build file and a target, and back -/

/-- A project that has no targets. -/
def loneProject : Object := ⟨"P1", ⟨[("isa", .text "PBXProject"), ("targets", .list [])], []⟩, none⟩

theorem loneProject_isProper : loneProject.IsProper where
  id := ⟨by decide, by decide⟩
  comment := by simp [loneProject]
  fields := by
    refine writable_plain (by decide) (fun e he => ?_) fun e he => ?_
    · rcases List.mem_cons.mp he with rfl | he
      · exact isQuotable_isa
      · obtain rfl := List.mem_singleton.mp he
        exact isQuotable_of_word (List.all_eq_true.mp (by decide))
    · rcases List.mem_cons.mp he with rfl | he
      · exact writable_text (isQuotable_of_word (List.all_eq_true.mp (by decide)))
      · obtain rfl := List.mem_singleton.mp he
        exact .list nofun

def loneLines : ObjectLines :=
  .ofObject loneProject loneProject_isProper false tableIndent firstGroup.indent_isIndent (by decide +kernel)

theorem isKindName_project : IsKindName "PBXProject" := ⟨by decide, List.all_eq_true.mp (by decide)⟩

/-- A text with nothing but that project. -/
def loneLayout : Layout where
  head := "\x7b\n\tobjects = \x7b\n".toList
  blocks := [.kind {
    isa := "PBXProject"
    parts := [.object loneLines]
    isa_ne := isKindName_project.nonempty
    isa_word := isKindName_project.word
    own := fun o ho => by
      obtain rfl := Part.object.inj (List.mem_singleton.mp ho)
      decide +kernel }]
  indent := ['\t']
  foot := ";\n\x7d\n".toList
  root := groupsLayout.root
  head_lines := groupsLayout.head_lines
  head_single := groupsLayout.head_single
  head_unmarked := groupsLayout.head_unmarked
  indent_isIndent := groupsLayout.indent_isIndent
  emptied := groupsLayout.emptied
  isas_nodup := by decide
  ids_nodup := by decide

theorem loneLayout_isRendered : loneLayout.IsRendered [] [] where
  spaced := {
    blocks := rfl
    gap := .inr ⟨rfl, by simp⟩
    sorted := by decide
    filled := fun k hk => by
      obtain rfl := List.mem_singleton.mp hk
      exact List.cons_ne_nil _ _ }
  parts k hk p hp := by
    obtain rfl := List.mem_singleton.mp hk
    exact ⟨loneLines, List.mem_singleton.mp hp⟩
  lines l hl := by
    have hl : l ∈ [loneLines] := hl
    obtain rfl := List.mem_singleton.mp hl
    decide +kernel

/-- A build file is added, and a target. -/
def targetAdded : List Change :=
  [.add "PBXBuildFile" [] (some "b.m in Sources") "b", .appendRef "P1" "targets" "T1" (some "App")]

theorem targetAdded_isProper : ∀ c ∈ targetAdded, c.IsProper := by
  simp only [targetAdded, List.forall_mem_cons]
  refine ⟨⟨⟨by decide, List.all_eq_true.mp (by decide)⟩, by simp, fun d hd => ?_⟩,
    ⟨by decide, isQuotable_of_word (List.all_eq_true.mp (by decide)), ⟨by decide, by decide⟩, fun d hd => ?_⟩, nofun⟩
  · obtain rfl := Option.some.inj hd
    exact ⟨by decide, fun hin => absurd (hin.subset List.mem_cons_self) (by decide)⟩
  · obtain rfl := Option.some.inj hd
    exact ⟨by decide, fun hin => absurd (hin.subset List.mem_cons_self) (by decide)⟩

/-- The target is taken out of the list first. -/
theorem serialise_undone_loneLayout : loneLayout.IsRendered [] [] ∧
    ∃ g₀ t g₁, Graph.load "project" loneLayout.text = .ok g₀ ∧ g₀.Gains targetAdded ∧
      (g₀.changed targetAdded).WritesNoMarkers ∧ (g₀.changed targetAdded).serialise = .ok t ∧
      Graph.load "project" t = .ok g₁ ∧
      (g₁.changed (g₀.undoing targetAdded).reverse).serialise = .ok loneLayout.text := by
  obtain ⟨g₀, hload, hread, -⟩ := loneLayout.load_text "project"
  have hstate : (Graph.load "project" loneLayout.text).toOption.any (fun g =>
      (((Change.add "PBXBuildFile" [] (some "b.m in Sources") "b").apply g).get? "P1").any
        (fun o => (o.slot? (.field "targets")).any List.isEmpty) &&
      (g.objects ++ (g.changed targetAdded).objects).all fun o => decide o.OnLine) = true := by decide +kernel
  simp only [hload, Except.toOption, Option.any_some, Bool.and_eq_true, List.all_eq_true, decide_eq_true_eq,
    Option.any_eq_true, List.isEmpty_iff] at hstate
  obtain ⟨⟨o, hget, items, hslot, rfl⟩, honLine⟩ := hstate
  have hgains : g₀.Gains targetAdded := by
    refine ⟨List.mem_cons_self, ⟨o, hget, fun t ht _ => ?_⟩, trivial⟩
    obtain rfl := Option.some.inj ht
    exact ⟨[], hslot, fun x hx => absurd hx List.not_mem_nil⟩
  have htabs : (loneLayout.objects.all fun l => l.indent.head? == some '\t') = true := by decide +kernel
  have hunmarked := (hread.follows.changed targetAdded_isProper).writesNoMarkers hread.toLaid
    (fun l hl => eq_of_beq (List.all_eq_true.mp htabs l hl)) fun o ho => honLine o (List.mem_append_right _ ho)
  obtain ⟨t, g₁, ht, hload₁, hback⟩ := serialise_undone loneLayout_isRendered (by decide) hload hgains
    targetAdded_isProper (fun o ho _ => honLine o ho) hunmarked (List.reverse_perm _)
  exact ⟨loneLayout_isRendered, g₀, t, g₁, hload, hgains, hunmarked, ht, hload₁, hback⟩

/-- A build file is added with a comment that has a line break. -/
def breakAdded : List Change := [.add "PBXBuildFile" [] (some "x\n/* Begin PBXBuildFile section") "s"]

/-- When the build file was taken out, markers are left. -/
theorem not_serialise_undone_breakAdded : loneLayout.IsRendered [] [] ∧ (∀ c ∈ breakAdded, c.IsProper) ∧
    ∃ g₀ t g₁ t', Graph.load "project" loneLayout.text = .ok g₀ ∧ g₀.Gains breakAdded ∧
      (g₀.changed breakAdded).serialise = .ok t ∧ Graph.load "project" t = .ok g₁ ∧
      (g₁.changed (g₀.undoing breakAdded)).serialise = .ok t' ∧ t' ≠ loneLayout.text := by
  have hproper : ∀ c ∈ breakAdded, c.IsProper := by
    simp only [breakAdded, List.forall_mem_cons]
    refine ⟨⟨⟨by decide, List.all_eq_true.mp (by decide)⟩, by simp, fun d hd => ?_⟩, nofun⟩
    obtain rfl := Option.some.inj hd
    exact ⟨by decide, fun hin => absurd hin (by decide)⟩
  have hstate : (Graph.load "project" loneLayout.text).toOption.any (fun g =>
      (g.changed breakAdded).serialise.toOption.any fun t => (Graph.load "project" t).toOption.any fun g₁ =>
        (g₁.changed (g.undoing breakAdded)).serialise.toOption.any fun t' =>
          decide (t' ≠ loneLayout.text)) = true := by decide +kernel
  simp only [Option.any_eq_true, decide_eq_true_eq] at hstate
  obtain ⟨g₀, hload, t, ht, g₁, hload₁, t', ht', hne⟩ := hstate
  exact ⟨loneLayout_isRendered, hproper, g₀, t, g₁, t', ok_of_toOption hload, ⟨List.mem_cons_self, trivial⟩,
    ok_of_toOption ht, ok_of_toOption hload₁, ok_of_toOption ht', hne⟩

end Xcode
end ModuleLink
