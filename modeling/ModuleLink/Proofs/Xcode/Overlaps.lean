import Mathlib
import ModuleLink.Proofs.Text.Edits
import ModuleLink.Proofs.Xcode.Reload

/-!
When the edits that write a changed graph back overlap.  In a text in Xcode layout they do so in one case only: two
sections that have lost all their objects share the blank line between them, and none follows the second one.
-/

namespace ModuleLink
namespace Xcode

open Plist Text

variable {L : Layout} {g₀ g g' : Graph} {s s' : Section} {e e' : Edit} {id id' : String} {n m : Nat} {c : Cell}

/-! ## What is removed and touched, once each -/

/-- No object is removed twice, nor touched twice. -/
structure Graph.Once (g : Graph) : Prop where
  removed : g.removed.Nodup
  touched : g.touched.Nodup

theorem nodup_append_of_not_contains {ids : List String} (h : ids.Nodup) :
    (if ids.contains id then ids else ids ++ [id]).Nodup := by
  split
  · exact h
  next hnew =>
    refine List.nodup_append.mpr ⟨h, List.nodup_singleton id, fun a ha b hb hab => hnew ?_⟩
    rw [← List.mem_singleton.mp hb, ← hab]
    exact List.contains_iff_mem.mpr ha

namespace Graph.Once

theorem congr (h : g.Once) (hremoved : g'.removed = g.removed) (htouched : g'.touched = g.touched) : g'.Once :=
  ⟨hremoved ▸ h.removed, htouched ▸ h.touched⟩

theorem touch (h : g.Once) (id : String) : (g.touch id).Once := by
  have htouched : (g.touch id).touched = if g.touched.contains id then g.touched else g.touched ++ [id] := by
    rw [Graph.touch]
    split <;> rfl
  have hremoved : (g.touch id).removed = g.removed := by rw [touch_eq]
  exact ⟨hremoved ▸ h.removed, htouched ▸ nodup_append_of_not_contains h.touched⟩

theorem store_touch (h : g.Once) (o : Object) (id : String) : ((g.store o).touch id).Once :=
  touch (show (g.store o).Once from ⟨h.removed, h.touched⟩) id

theorem apply (h : g.Once) (c : Change) : (c.apply g).Once := by
  cases hkey : c.writes? with
  | some key =>
    rcases Change.apply_eq_or_store hkey g with hsame | ⟨o, -, v, hchanged⟩
    · rwa [hsame]
    · rw [hchanged]
      exact h.store_touch _ _
  | none =>
    cases c with
    | add isa fields comment seed =>
      simp only [Change.apply]
      split
      next g' o hadd =>
        obtain ⟨values, -, hadd⟩ := ok_of_bind hadd
        obtain ⟨rfl, -⟩ := Prod.mk.inj (Except.ok.inj hadd)
        exact h.congr rfl rfl
      · exact h
    | remove id =>
      simp only [Change.apply, Graph.removeObject]
      split
      · exact h
      · split
        · exact ⟨nodup_append_of_not_contains h.removed, h.touched⟩
        · exact h.congr rfl rfl
    | touch id => exact h.touch id
    | appendRef | removeRef | addSetting | removeSetting => contradiction

theorem changed (h : g.Once) (changes : List Change) : (g.changed changes).Once := by
  induction changes generalizing g with
  | nil => exact h
  | cons c changes ih => exact ih (h.apply c)

end Graph.Once

/-! ## Edits of one object -/

/-- A place between lines is not inside a cell. -/
theorem Layout.At.le_of_lt (hn : L.At n c) (hm : L.Between m) (hlt : n < m) : n + c.text.length ≤ m := by
  obtain ⟨as, bs, hcells, rfl⟩ := hn
  obtain ⟨a, b, hcut, rfl⟩ := hm
  obtain ⟨as', bs', hcells', rfl, rfl⟩ := List.map_eq_append_iff.mp hcut
  have hlen : (textOf as').length = (as'.map Cell.text).flatten.length := rfl
  rw [← hlen] at hlt ⊢
  obtain ⟨ds, rfl, hds⟩ := Layout.exists_between (hcells.symm.trans hcells') (by omega)
  cases ds with
  | nil => simp at hlt
  | cons d ds =>
    obtain ⟨rfl, -⟩ := List.cons.inj hds
    simp only [textOf_append, textOf_cons, List.length_append]
    omega

/-- The edit takes away the lines of an object, and no more. -/
def Layout.IsAt (L : Layout) (e : Edit) (id : String) : Prop :=
  ∃ l : ObjectLines, L.At e.start (.part (.object l)) ∧ l.id = id ∧ e.stop = e.start + l.text.length

namespace Layout.IsAt

theorem apart (h : L.IsAt e id) (h' : L.IsAt e' id') (hne : id ≠ id') : e.Apart e' := by
  obtain ⟨l, hat, rfl, hstop⟩ := h
  obtain ⟨l', hat', rfl, hstop'⟩ := h'
  rcases Nat.lt_trichotomy e.start e'.start with hlt | heq | hlt
  · exact .inl (hstop ▸ hat.le_of_lt hat'.between_start hlt)
  · obtain ⟨-, hcell⟩ := hat.unique (heq ▸ hat') (Nat.le_refl _) (Nat.lt_add_of_pos_right (Cell.text_length_pos _))
    obtain rfl := Part.object.inj (Cell.part.inj hcell)
    exact absurd rfl hne
  · exact .inr (hstop' ▸ hat'.le_of_lt hat.between_start hlt)

theorem apart_of_point (h : L.IsAt e id) (hpoint : e'.stop = e'.start) (hbetween : L.Between e'.start) :
    e.Apart e' := by
  obtain ⟨l, hat, -, hstop⟩ := h
  rcases Nat.lt_or_ge e.start e'.start with hlt | hle
  · exact .inl (hstop ▸ hat.le_of_lt hbetween hlt)
  · exact .inr (hpoint ▸ hle)

end Layout.IsAt

theorem Laid.isAt_of_span (h : Laid L g) {span : Span} (hspan : g.spans.lookup id = some span) (text : List Char) :
    L.IsAt ⟨span.start, span.stop, text⟩ id := by
  obtain ⟨l, inline, n, hat, hid, rfl⟩ := h.spans id span hspan
  exact ⟨l, hat, hid, rfl⟩

/-! ## Edits of one section -/

/-- What is not of a section is not taken out with it. -/
theorem Laid.outside_dropSection (h : Laid L g) (hs : s ∈ g.sections) (hat : L.At n c)
    (hout : (∃ o, c = .part (.object o) ∧ o.id ∉ s.members) ∨ ∃ isa, c.isa? = some isa ∧ isa ≠ s.isa) :
    n + c.text.length ≤ (g.dropSection s).start ∨ (g.dropSection s).stop ≤ n := by
  obtain ⟨as, cs, bs, hcells, hdrop, -, -, hmembers, hkinds⟩ := h.exists_dropped hs
  rw [hdrop]
  rcases Nat.lt_or_ge n (L.head.length + (textOf as).length) with hlt | hle
  · exact .inl (hat.le_of_lt (Layout.between_of_split hcells) hlt)
  · refine .inr (Nat.le_of_not_lt fun hlt => ?_)
    have hmem := hat.mem_of_between hcells hle hlt
    rcases hout with ⟨o, rfl, ho⟩ | ⟨isa, hisa, hne⟩
    · exact ho (hmembers o hmem)
    · rcases hkinds c hmem with hnone | hsome
      · rw [hisa] at hnone
        contradiction
      · exact hne (Option.some.inj (hisa.symm.trans hsome))

theorem Laid.apart_dropSection_of_isAt (h : Laid L g) (hs : s ∈ g.sections) (he : L.IsAt e id)
    (hout : id ∉ s.members) : (g.dropSection s).Apart e := by
  obtain ⟨l, hat, rfl, hstop⟩ := he
  refine (h.outside_dropSection hs hat (.inl ⟨l, rfl, hout⟩)).symm.imp_right fun hle => ?_
  rw [hstop]
  exact hle

/-- New objects go in front of a line of a section that is not taken out, or behind all lines. -/
theorem Laid.insertion_place (h : Laid L g) {group : String × List Object} (hgroup : group ∈ g.addedObjects)
    (he : e ∈ g.insertionEdits group.1 group.2) : e.stop = e.start ∧
      (e.start = L.head.length + (textOf L.cells).length ∨ ∃ c s, s ∈ g.sections ∧ g.isDropped s = false ∧
        L.At e.start c ∧ c.isa? = some s.isa) := by
  rw [Graph.insertionEdits] at he
  split at he
  next s hs =>
    obtain ⟨hs, hisa⟩ := List.mem_filter.mp (List.mem_of_head? hs)
    obtain ⟨as, k, bs, hcells, -, hkind, -, hend, -, hmembers⟩ := h.exists_kind hs
    have hlookup : g.addedObjects.lookup group.1 = some group.2 := Dict.lookup_of_mem (nodup_grouped _) hgroup
    have hkept : g.isDropped s = false := by
      rw [Graph.isDropped, eq_of_beq hisa, hlookup]
      simp
    obtain ⟨o, -, rfl⟩ := List.mem_map.mp he
    refine ⟨rfl, .inr ?_⟩
    simp only
    split
    next span hspan =>
      obtain ⟨id, hid, hspan⟩ := Option.bind_eq_some_iff.mp hspan
      obtain ⟨l, inline, n, hat, rfl, rfl⟩ := h.spans id span hspan
      obtain ⟨l', hl', hsame⟩ := (hmembers l.id).mp (List.mem_filter.mp (List.mem_of_head? hid)).1
      have hl : l' ∈ L.objects := Layout.mem_objects.mpr (by
        rw [hcells]
        simp [Kind.cells, Layout.mem_kind_objects.mp hl'])
      obtain rfl := Layout.eq_of_id_eq hl hat.mem_objects hsame
      refine ⟨_, s, hs, hkept, hat, ?_⟩
      rw [hkind]
      exact congrArg some (k.own l' (Layout.mem_kind_objects.mp hl'))
    · refine ⟨.marker false k.isa, s, hs, hkept, ?_, congrArg some hkind.symm⟩
      refine ⟨as ++ .marker true k.isa :: k.parts.map .part, bs, ?_, hend⟩
      rw [hcells, Kind.cells]
      simp only [List.append_assoc, List.cons_append, List.nil_append]
  · split at he
    next s hs =>
      obtain ⟨hs, hlater⟩ := List.mem_filter.mp (List.mem_mergeSort.mp (List.mem_of_head? hs))
      obtain ⟨as, k, bs, hcells, -, hkind, hbegin, -⟩ := h.exists_kind hs
      obtain rfl := List.mem_singleton.mp he
      refine ⟨rfl, .inr ⟨.marker true k.isa, s, hs, by simpa using (Bool.and_eq_true_iff.mp hlater).2, ?_,
        congrArg some hkind.symm⟩⟩
      exact ⟨as, k.parts.map .part ++ [.marker false k.isa] ++ bs, by rw [hcells, Kind.cells]; simp, hbegin⟩
    · obtain rfl := List.mem_singleton.mp he
      exact ⟨rfl, .inl h.lastLineStart_eq⟩

/-- Sections are named by their kinds. -/
theorem Laid.apart_dropSection_of_insertion (h : Laid L g) (hnodup : (g.sections.map Section.isa).Nodup)
    (hs : s ∈ g.sections) (hdropped : g.isDropped s = true) {group : String × List Object}
    (hgroup : group ∈ g.addedObjects) (he : e ∈ g.insertionEdits group.1 group.2) : (g.dropSection s).Apart e := by
  obtain ⟨hpoint, hplace⟩ := h.insertion_place hgroup he
  rcases hplace with hend | ⟨c, s', hs', hkept, hat, hisa⟩
  · obtain ⟨as, cs, bs, hcells, hdrop, -⟩ := h.exists_dropped hs
    refine .inl ?_
    rw [hdrop, hend, hcells, textOf_append, textOf_append, List.length_append, List.length_append]
    dsimp only
    omega
  · have hne : s'.isa ≠ s.isa := fun heq => by
      obtain rfl := List.inj_on_of_nodup_map hnodup hs' hs heq
      rw [hkept] at hdropped
      contradiction
    refine (h.outside_dropSection hs hat (.inr ⟨s'.isa, hisa, hne⟩)).symm.imp_right fun hle => ?_
    rw [hpoint]
    omega

/-! ## Two sections that are taken out -/

/-- A single blank line stands between the sections, and none behind the second. -/
def Graph.ShareLine (g : Graph) (s s' : Section) : Prop :=
  s'.beginStart = s.endStop + 1 ∧ startsWith ['\n'] (g.text.drop s'.endStop) = false

/-- Of two kinds one stands behind the other. -/
theorem exists_between_kinds {k k' : Kind} {as bs as' bs' : List Cell}
    (hcells : as ++ (k.cells ++ bs) = as' ++ (k'.cells ++ bs')) (hne : k.isa ≠ k'.isa)
    (hle : (textOf as).length ≤ (textOf as').length) :
    ∃ m, as' = as ++ (k.cells ++ m) ∧ bs = m ++ (k'.cells ++ bs') := by
  obtain ⟨m, rfl, hm⟩ := Layout.exists_between hcells hle
  rcases List.append_eq_append_iff.mp hm with ⟨d, rfl, hd⟩ | ⟨d, hd, hd'⟩
  · exact ⟨d, rfl, hd⟩
  · cases d with
    | nil => exact ⟨[], by rw [hd]; simp, by simpa using hd'.symm⟩
    | cons x d =>
      obtain ⟨rfl, -⟩ := List.cons.inj (show .marker true k'.isa :: _ = x :: (d ++ bs) from hd')
      have hin : .marker true k'.isa ∈ k.cells := by rw [hd]; simp
      rcases Kind.isa?_of_mem hin with hnone | hsome
      · contradiction
      · exact absurd (Option.some.inj hsome).symm hne

theorem Cell.text_eq_of_length {c : Cell} (h : c.text.length ≤ 1) : c.text = ['\n'] := by
  obtain ⟨u, hu⟩ := c.text_isLines
  rw [hu, List.length_append, List.length_singleton] at h
  rw [hu, List.length_eq_zero_iff.mp (by omega : u.length = 0)]
  rfl

/-- What stands between two sections is a blank line if it is one character. -/
theorem eq_singleton_of_length {m : List Cell} (h : (textOf m).length = 1) : ∃ c, m = [c] ∧ c.text = ['\n'] := by
  cases m with
  | nil => contradiction
  | cons c m =>
    rw [textOf_cons, List.length_append] at h
    have hpos := c.text_length_pos
    cases m with
    | nil => exact ⟨c, rfl, Cell.text_eq_of_length (by omega)⟩
    | cons d m =>
      rw [textOf_cons, List.length_append] at h
      have := d.text_length_pos
      omega

theorem Kind.textOf_cells_length_pos (k : Kind) : 0 < (textOf k.cells).length := by
  have hpos := (Cell.marker true k.isa).text_length_pos
  rw [Kind.cells, textOf_cons, List.length_append]
  omega

theorem Laid.apart_dropSections_of_le (h : Laid L g) {as bs as' bs' : List Cell} {k k' : Kind}
    (hcells : L.cells = as ++ (k.cells ++ bs)) (hcells' : L.cells = as' ++ (k'.cells ++ bs'))
    (hne : k.isa ≠ k'.isa) (hle : (textOf as).length ≤ (textOf as').length)
    (hbegin : s.beginStart = L.head.length + (textOf as).length)
    (hstop : s.endStop = L.head.length + (textOf as).length + (textOf k.cells).length)
    (hbegin' : s'.beginStart = L.head.length + (textOf as').length)
    (hstop' : s'.endStop = L.head.length + (textOf as').length + (textOf k'.cells).length) :
    ((g.dropSection s).Apart (g.dropSection s') ↔ ¬ g.ShareLine s s') ∧ ¬ g.ShareLine s' s := by
  obtain ⟨m, rfl, rfl⟩ := exists_between_kinds (hcells.symm.trans hcells') hne hle
  have hlen : s'.beginStart = s.endStop + (textOf m).length := by
    rw [hbegin', hstop, textOf_append, textOf_append, List.length_append, List.length_append]
    omega
  have hpos := k.textOf_cells_length_pos
  have hpos' := k'.textOf_cells_length_pos
  have htext : g.text.drop s.endStop = textOf m ++ (textOf (k'.cells ++ bs') ++ L.closing) := by
    have hsplit : g.text = (L.head ++ textOf as ++ textOf k.cells) ++ (textOf m ++ (textOf (k'.cells ++ bs') ++ L.closing)) := by
      rw [h.text, Layout.text, hcells]
      simp only [textOf_append, List.append_assoc]
    have hend : s.endStop = (L.head ++ textOf as ++ textOf k.cells).length := by
      rw [hstop, List.length_append, List.length_append]
    rw [hsplit, hend, List.drop_left]
  refine ⟨?_, fun hshare => by have := hshare.1; omega⟩
  -- A single line between the sections is blank, and ends what stands before the second one.
  have hblank (hone : (textOf m).length = 1) : startsWith ['\n'] (g.text.drop s.endStop) = true ∧
      ['\n', '\n'] <:+ L.head ++ textOf (as ++ (k.cells ++ m)) := by
    obtain ⟨c, rfl, hc⟩ := eq_singleton_of_length hone
    obtain ⟨u, hu⟩ := markerLine_isLines false k.isa
    have hkind : textOf k.cells = (markerLine true k.isa ++ textOf (k.parts.map .part) ++ u) ++ ['\n'] := by
      rw [Kind.textOf_cells, hu]
      simp only [List.append_assoc]
    rw [htext, textOf_cons, textOf_nil, List.append_nil, hc]
    refine ⟨startsWith_append _ _, L.head ++ textOf as ++ (markerLine true k.isa ++ textOf (k.parts.map .part) ++ u), ?_⟩
    rw [textOf_append, textOf_append, textOf_cons, textOf_nil, List.append_nil, hkind, hc]
    simp only [List.append_assoc, List.cons_append, List.nil_append]
  rcases h.dropSection_cases hcells hbegin hstop with ⟨-, f, ds, hm, hf, hdrop⟩ | ⟨hfull, hdrop⟩
  · -- The first section goes with the line behind it, which stands before the second section.
    have hone : 1 ≤ (textOf m).length := by
      cases m with
      | nil => exact absurd (List.cons.inj hm).1 (by simp)
      | cons c m =>
        obtain ⟨rfl, -⟩ := List.cons.inj hm
        have := (Cell.part (.filler f)).text_length_pos
        rw [textOf_cons, List.length_append]
        omega
    rw [hdrop]
    rcases h.dropSection_cases hcells' hbegin' hstop' with
      ⟨hstarts, -, -, -, -, hdrop'⟩ | ⟨hfull', ⟨f', ds', -, -, hdrop'⟩ | ⟨hsingle, hdrop'⟩⟩
    · refine iff_of_true (.inl ?_) fun hshare => ?_
      · rw [hdrop']
        dsimp only
        omega
      · rw [hshare.2] at hstarts
        contradiction
    · rw [hdrop', Edit.Apart, Graph.ShareLine, hfull']
      dsimp only
      constructor
      · rintro (hle | hle) ⟨hshare, -⟩ <;> omega
      · exact fun hshare => .inl (by have : s'.beginStart ≠ s.endStop + 1 := fun heq => hshare ⟨heq, rfl⟩; omega)
    · refine iff_of_true (.inl ?_) fun hshare => hsingle (hblank ?_).2
      · rw [hdrop']
        dsimp only
        omega
      · have := hshare.1
        omega
  · have hnot : ¬ g.ShareLine s s' := fun hshare => by
      have hstarts := (hblank (by have := hshare.1; omega)).1
      rw [hfull] at hstarts
      contradiction
    have hstop₁ : (g.dropSection s).stop = s.endStop := by
      rcases hdrop with ⟨f, ds, -, -, hdrop⟩ | ⟨-, hdrop⟩ <;> rw [hdrop]
    refine iff_of_true (.inl ?_) hnot
    rw [hstop₁]
    rcases h.dropSection_cases hcells' hbegin' hstop' with
      ⟨-, -, -, -, -, hdrop'⟩ | ⟨-, ⟨f', ds', hds, hf', hdrop'⟩ | ⟨-, hdrop'⟩⟩
    · rw [hdrop']
      dsimp only
      omega
    · -- The line before the second section stands behind the first one.
      have hone : 1 ≤ (textOf m).length := by
        cases m using List.reverseRecOn with
        | nil =>
          rw [List.append_nil, Kind.cells, ← List.cons_append, ← List.append_assoc] at hds
          exact absurd (List.append_inj' hds rfl).2 (by simp)
        | append_singleton m c =>
          have := c.text_length_pos
          rw [textOf_append, textOf_cons, List.length_append, List.length_append]
          omega
      rw [hdrop']
      dsimp only
      omega
    · rw [hdrop']
      dsimp only
      omega

theorem Laid.apart_dropSections_iff (h : Laid L g) (hs : s ∈ g.sections) (hs' : s' ∈ g.sections) (hne : s.isa ≠ s'.isa) :
    (g.dropSection s).Apart (g.dropSection s') ↔ ¬ g.ShareLine s s' ∧ ¬ g.ShareLine s' s := by
  obtain ⟨as, k, bs, hcells, -, hisa, hbegin, -, hstop, -⟩ := h.exists_kind hs
  obtain ⟨as', k', bs', hcells', -, hisa', hbegin', -, hstop', -⟩ := h.exists_kind hs'
  rw [hisa, hisa'] at hne
  rcases Nat.le_total (textOf as).length (textOf as').length with hle | hle
  · obtain ⟨hiff, hnot⟩ := h.apart_dropSections_of_le hcells hcells' hne hle hbegin hstop hbegin' hstop'
    rw [hiff, and_iff_left hnot]
  · obtain ⟨hiff, hnot⟩ := h.apart_dropSections_of_le hcells' hcells (Ne.symm hne) hle hbegin' hstop' hbegin hstop
    rw [and_iff_right hnot, ← hiff]
    exact ⟨Edit.Apart.symm, Edit.Apart.symm⟩

/-! ## All edits -/

/-- The edits of the objects that were there before. -/
def Graph.textEdits (g : Graph) : List Edit :=
  (g.sections.filter g.isDropped).map g.dropSection ++ g.removalEdits ++ g.changeEdits

theorem edits_of_added_nil (h : g.added = []) : g.edits = g.textEdits := by
  have hnew : g.addedObjects = [] := by rw [Graph.addedObjects, h]; rfl
  rw [Graph.edits, hnew, List.mergeSort_nil]
  exact List.append_nil _

/-- The edits that take out sections. -/
theorem Laid.pairwise_dropSections (h : Laid L g) (hnodup : (g.sections.map Section.isa).Nodup) :
    ((g.sections.filter g.isDropped).map g.dropSection).Pairwise Edit.Apart ↔
      ¬ ∃ s ∈ g.sections, ∃ s' ∈ g.sections, g.isDropped s = true ∧ g.isDropped s' = true ∧ g.ShareLine s s' := by
  have hisas : (g.sections.filter g.isDropped).Pairwise fun s s' => s.isa ≠ s'.isa :=
    (List.pairwise_map.mp hnodup).sublist List.filter_sublist
  rw [List.pairwise_map]
  constructor
  · rintro hpairwise ⟨s, hs, s', hs', hdropped, hdropped', hshare⟩
    have hne : s ≠ s' := by
      rintro rfl
      obtain ⟨as, k, bs, -, -, -, hbegin, -, hstop, -⟩ := h.exists_kind hs
      have := hshare.1
      omega
    have hisa : s.isa ≠ s'.isa := fun heq => hne (List.inj_on_of_nodup_map hnodup hs hs' heq)
    have : Std.Symm fun s s' : Section => (g.dropSection s).Apart (g.dropSection s') := ⟨fun _ _ hab => hab.symm⟩
    have hapart := hpairwise.forall (List.mem_filter.mpr ⟨hs, hdropped⟩) (List.mem_filter.mpr ⟨hs', hdropped'⟩) hne
    exact ((h.apart_dropSections_iff hs hs' hisa).mp hapart).1 hshare
  · intro hnone
    refine hisas.imp_of_mem fun {s s'} hin hin' hne => ?_
    obtain ⟨hs, hdropped⟩ := List.mem_filter.mp hin
    obtain ⟨hs', hdropped'⟩ := List.mem_filter.mp hin'
    exact (h.apart_dropSections_iff hs hs' hne).mpr ⟨fun hshare => hnone ⟨s, hs, s', hs', hdropped, hdropped', hshare⟩,
      fun hshare => hnone ⟨s', hs', s, hs, hdropped', hdropped, hshare⟩⟩

theorem Laid.pairwise_removalEdits (h : Laid L g) (honce : g.Once) : g.removalEdits.Pairwise Edit.Apart := by
  rw [Graph.removalEdits, List.pairwise_filterMap]
  refine honce.removed.imp fun {id id'} hne e he e' he' => ?_
  split at he
  next span hspan =>
    split at he'
    next span' hspan' =>
      split at he
      · contradiction
      · split at he'
        · contradiction
        · obtain rfl := Option.some.inj he
          obtain rfl := Option.some.inj he'
          exact (h.isAt_of_span hspan []).apart (h.isAt_of_span hspan' []) hne
    · contradiction
  · contradiction

theorem Laid.pairwise_changeEdits (h : Laid L g) (honce : g.Once) : g.changeEdits.Pairwise Edit.Apart := by
  rw [Graph.changeEdits, List.pairwise_filterMap]
  refine honce.touched.imp fun {id id'} hne e he e' he' => ?_
  split at he
  next span o hspan _ =>
    split at he'
    next span' o' hspan' _ =>
      split at he
      · contradiction
      · split at he'
        · contradiction
        · obtain rfl := Option.some.inj he
          obtain rfl := Option.some.inj he'
          exact (h.isAt_of_span hspan _).apart (h.isAt_of_span hspan' _) hne
    · contradiction
  · contradiction

/-- The edits of a changed graph leave each other alone, those that take out sections apart. -/
theorem Follows.pairwise_edits (h : Follows g₀ g) (hlaid : Laid L g₀) (hnodup : (g₀.sections.map Section.isa).Nodup)
    (honce : g.Once) : g.edits.Pairwise Edit.Apart ↔
      ¬ ∃ s ∈ g.sections, ∃ s' ∈ g.sections, g.isDropped s = true ∧ g.isDropped s' = true ∧ g.ShareLine s s' := by
  have hframe : g.sections = g₀.sections := by rw [h.frame]
  have hlaid := h.laid hlaid
  rw [← hframe] at hnodup
  rw [← hlaid.pairwise_dropSections hnodup]
  refine ⟨fun hall => hall.sublist ?_, fun hsections => ?_⟩
  · rw [Graph.edits, List.append_assoc, List.append_assoc]
    exact List.sublist_append_left _ _
  have hdropped {e : Edit} (he : e ∈ (g.sections.filter g.isDropped).map g.dropSection) :
      ∃ s ∈ g.sections, g.isDropped s = true ∧ g.dropSection s = e := by
    obtain ⟨s, hs, rfl⟩ := List.mem_map.mp he
    exact ⟨s, (List.mem_filter.mp hs).1, (List.mem_filter.mp hs).2, rfl⟩
  have hpoint {e : Edit} (he : e ∈ (g.addedObjects.mergeSort fun a b => decide (a.1 ≤ b.1)).flatMap fun group =>
      g.insertionEdits group.1 group.2) : ∃ group ∈ g.addedObjects, e ∈ g.insertionEdits group.1 group.2 := by
    obtain ⟨group, hgroup, he⟩ := List.mem_flatMap.mp he
    exact ⟨group, List.mem_mergeSort.mp hgroup, he⟩
  have hbetween {e : Edit} {group : String × List Object} (hgroup : group ∈ g.addedObjects)
      (he : e ∈ g.insertionEdits group.1 group.2) : e.stop = e.start ∧ L.Between e.start := by
    obtain ⟨hstop, hplace⟩ := hlaid.insertion_place hgroup he
    refine ⟨hstop, ?_⟩
    rcases hplace with hend | ⟨c, s, -, -, hat, -⟩
    · rw [hend]
      exact Layout.between_of_split (List.append_nil _).symm
    · exact hat.between_start
  -- Sections, removals, changes and insertions, and each two of these.
  rw [Graph.edits, List.pairwise_append, List.pairwise_append, List.pairwise_append]
  refine ⟨⟨⟨hsections, hlaid.pairwise_removalEdits honce, fun e he e' he' => ?_⟩, hlaid.pairwise_changeEdits honce,
    fun e he e' he' => ?_⟩, ?_, fun e he e' he' => ?_⟩
  · obtain ⟨s, hs, hdrop, rfl⟩ := hdropped he
    obtain ⟨id, -, span, hspan, hswallowed, rfl⟩ := mem_removalEdits he'
    refine hlaid.apart_dropSection_of_isAt hs (hlaid.isAt_of_span hspan []) fun hin => hswallowed ?_
    exact List.mem_flatMap.mpr ⟨s, List.mem_filter.mpr ⟨hs, hdrop⟩, hin⟩
  · obtain ⟨id', -, span', o', hspan', -, hkept, rfl⟩ := mem_changeEdits he'
    rcases List.mem_append.mp he with he | he
    · obtain ⟨s, hs, hdrop, rfl⟩ := hdropped he
      refine hlaid.apart_dropSection_of_isAt hs (hlaid.isAt_of_span hspan' _) fun hin => hkept ?_
      simp only [Graph.isDropped, Bool.and_eq_true, List.all_eq_true] at hdrop
      exact List.contains_iff_mem.mp (hdrop.1.2 _ hin)
    · obtain ⟨id, hremoved, span, hspan, -, rfl⟩ := mem_removalEdits he
      exact (hlaid.isAt_of_span hspan []).apart (hlaid.isAt_of_span hspan' _) fun heq => hkept (heq ▸ hremoved)
  · refine List.pairwise_of_forall_mem_list fun e he e' he' => ?_
    obtain ⟨group, hgroup, he⟩ := hpoint he
    obtain ⟨group', hgroup', he'⟩ := hpoint he'
    exact Edit.apart_of_points (hbetween hgroup he).1 (hbetween hgroup' he').1
  · obtain ⟨group, hgroup, he'⟩ := hpoint he'
    obtain ⟨hstop, hplace⟩ := hbetween hgroup he'
    rcases List.mem_append.mp he with he | he
    · rcases List.mem_append.mp he with he | he
      · obtain ⟨s, hs, hdrop, rfl⟩ := hdropped he
        exact hlaid.apart_dropSection_of_insertion hnodup hs hdrop hgroup he'
      · obtain ⟨id, -, span, hspan, -, rfl⟩ := mem_removalEdits he
        exact (hlaid.isAt_of_span hspan []).apart_of_point hstop hplace
    · obtain ⟨id, -, span, o, hspan, -, -, rfl⟩ := mem_changeEdits he
      exact (hlaid.isAt_of_span hspan _).apart_of_point hstop hplace

/-- A graph that has just been read was not changed. -/
theorem once_of_loaded (h : Loaded L g) : g.Once := ⟨by rw [h.removed]; exact .nil, by rw [h.touched]; exact .nil⟩

/-- A graph that was changed is written, unless two sections that are taken out share a blank line. -/
theorem Follows.serialises_iff {source : String} (h : Follows g₀ g) (hload : Graph.load source L.text = .ok g₀)
    (honce : g.Once) : (∃ t, g.serialise = .ok t) ↔
      ¬ ∃ s ∈ g₀.sections, ∃ s' ∈ g₀.sections, g.isDropped s = true ∧ g.isDropped s' = true ∧ g₀.ShareLine s s' := by
  have hread := loaded_of_load hload
  have hnodup : (g₀.sections.map Section.isa).Nodup := by
    rw [map_isa_sections hload hread.toLaid]
    exact L.isas_nodup
  have hordered : ∀ e ∈ g.edits, e.start ≤ e.stop := fun e he => (h.fits_edits hread.toLaid he).1.ordered
  have hedits := h.pairwise_edits hread.toLaid hnodup honce
  have happlied : (∃ t, applyEdits g.text g.edits = .ok t) ↔ g.edits.Pairwise Edit.Apart := exists_applyEdits_iff hordered
  rw [← happlied] at hedits
  have hsections : g.sections = g₀.sections := by rw [h.frame]
  have htext : g.text = g₀.text := by rw [h.frame]
  have hwritten : (∃ t, g.serialise = .ok t) ↔ ∃ t, applyEdits g.text g.edits = .ok t := by
    refine ⟨fun ⟨t, ht⟩ => ⟨t, applyEdits_of_serialise ht⟩, fun ⟨t, ht⟩ => ?_⟩
    rw [Graph.serialise]
    split
    · exact ⟨_, rfl⟩
    · rw [ht]
      exact ⟨t, rfl⟩
  rw [hwritten, hedits]
  simp only [hsections, Graph.ShareLine, htext]

/-- A changed graph is written, unless two sections that have lost all their objects share a blank line that is the last
one. -/
theorem exists_serialise_iff {source : String} {changes : List Change} (hload : Graph.load source L.text = .ok g₀)
    (hchanges : ∀ c ∈ changes, c.IsProper) : (∃ t, (g₀.changed changes).serialise = .ok t) ↔
      ¬ ∃ s ∈ g₀.sections, ∃ s' ∈ g₀.sections, (g₀.changed changes).isDropped s = true ∧
        (g₀.changed changes).isDropped s' = true ∧ g₀.ShareLine s s' := by
  have hread := loaded_of_load hload
  exact (hread.follows.changed hchanges).serialises_iff hload ((once_of_loaded hread).changed changes)

/-- A section that loses all its objects goes without trouble where no other one does. -/
theorem exists_serialise_groupsLayout :
    ∃ g₀, Graph.load "project" groupsLayout.text = .ok g₀ ∧
      ∃ t, (g₀.changed [.remove "A1", .remove "A2"]).serialise = .ok t := by
  obtain ⟨g₀, hload, hread, -⟩ := groupsLayout.load_text "project"
  have hproper : ∀ c ∈ [Change.remove "A1", .remove "A2"], c.IsProper := by
    simp [Change.IsProper]
  refine ⟨g₀, hload, (exists_serialise_iff hload hproper).mpr ?_⟩
  rintro ⟨s, hs, s', hs', -, -, hshare, -⟩
  have hisas : g₀.sections.map Section.isa = ["PBXGroup"] := map_isa_sections hload hread.toLaid
  obtain ⟨s₀, hs₀, -⟩ := List.map_eq_singleton_iff.mp hisas
  rw [hs₀, List.mem_singleton] at hs hs'
  obtain ⟨as, k, bs, -, -, -, hbegin, -, hstop, -⟩ := hread.exists_kind (s := s₀) (by simp [hs₀])
  rw [hs, hs'] at hshare
  omega

/-- A project whose last two sections hold one object each. -/
def lastSections : List Char :=
  "\x7b\n\tobjects = \x7b\n\n/* Begin PBXProject section */\n\t\tP1 = \x7b\n\t\t\tisa = PBXProject;\n\t\t\x7d;\n".toList ++
  "/* End PBXProject section */\n\n/* Begin XCBuildConfiguration section */\n\t\tC1 = \x7b\n".toList ++
  "\t\t\tisa = XCBuildConfiguration;\n\t\t\x7d;\n/* End XCBuildConfiguration section */\n\n".toList ++
  "/* Begin XCConfigurationList section */\n\t\tK1 = \x7b\n\t\t\tisa = XCConfigurationList;\n\t\t\x7d;\n".toList ++
  "/* End XCConfigurationList section */\n\t\x7d;\n\trootObject = P1;\n\x7d\n".toList

/-- The blank line between these sections goes with the first one and again with the second one, which no blank line
follows. -/
theorem not_serialise_lastSections :
    ∃ g₀, Graph.load "project" lastSections = .ok g₀ ∧
      ¬ ∃ t, (g₀.changed [.remove "C1", .remove "K1"]).serialise = .ok t := by
  have hstate : (Graph.load "project" lastSections).toOption.any (fun g =>
      (g.changed [.remove "C1", .remove "K1"]).added.isEmpty &&
      ((g.changed [.remove "C1", .remove "K1"]).textEdits.map fun e => (e.start, e.stop)) ==
        [(112, 238), (237, 360)]) = true := by decide +kernel
  cases hload : Graph.load "project" lastSections with
  | error f =>
    rw [hload] at hstate
    contradiction
  | ok g₀ =>
    rw [hload] at hstate
    simp only [Except.toOption, Option.any_some, Bool.and_eq_true, List.isEmpty_iff, beq_iff_eq] at hstate
    obtain ⟨hadded, hplaces⟩ := hstate
    refine ⟨g₀, rfl, ?_⟩
    rintro ⟨t, ht⟩
    -- The two edits that are left overlap.
    have hedits := edits_of_added_nil hadded
    obtain ⟨e, es, hes, he, hrest⟩ := List.map_eq_cons_iff.mp hplaces
    obtain ⟨e', es', rfl, he', hnil⟩ := List.map_eq_cons_iff.mp hrest
    obtain rfl := List.map_eq_nil_iff.mp hnil
    rw [hes] at hedits
    simp only [Prod.mk.injEq] at he he'
    have happly := applyEdits_of_serialise ht
    rw [hedits] at happly
    have hpairwise := (exists_applyEdits_iff (fun x hx => ?_)).mp ⟨t, happly⟩
    · have hapart := (List.pairwise_cons.mp hpairwise).1 e' (by simp)
      rw [Edit.Apart] at hapart
      omega
    · rcases List.mem_cons.mp hx with rfl | hx
      · omega
      · obtain rfl := List.mem_singleton.mp hx
        omega

end Xcode
end ModuleLink
