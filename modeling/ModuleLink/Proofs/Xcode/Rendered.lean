import Mathlib
import ModuleLink.Proofs.Xcode.Placement

/-!
Project texts in which every object stands as it is written anew.  However such a project is changed, what it is written
as is such a text again, as long as what is written on one line holds no line break, and the objects that are kept stand
in the order that they stood in.
-/

namespace ModuleLink

namespace Xcode

open Plist Text

theorem Object.IsProper.renderObject_tidy {o : Object} (h : o.IsProper) (indent : List Char) (inline wholeLine : Bool) :
    renderObject o.tidy indent inline wholeLine = renderObject o indent inline wholeLine := by
  have hrender := h.fields.readable.render_tidy
  rw [Value.tidy_dict] at hrender
  rw [renderObject, renderObject, Object.tidy]
  simp only [hrender.1, hrender.2]

theorem Object.IsProper.lines_tidy {o : Object} (h : o.IsProper) : o.tidy.lines = o.lines := by
  rw [Object.lines, Object.isa_tidy, h.renderObject_tidy, Object.lines]

/-- What was read is tidy. -/
theorem ObjectLines.object_tidy (l : ObjectLines) : l.object.tidy = l.object := by
  obtain ⟨body, h⟩ := l.reads
  have htidy : (Value.dict l.fields).tidy = .dict l.fields := (h.tidy _ (List.mem_singleton_self _)).2
  rw [Value.tidy_dict] at htidy
  exact congrArg (fun fields => (⟨l.key.value, fields, l.key.comment⟩ : Object)) (Value.dict.inj htidy)

/-! ## Where an object starts and ends -/

theorem takeWhile_isBlank {as bs : List Char} (has : isBlankText as = true) (hbs : bs.head?.all (!isBlank ·) = true) :
    (as ++ bs).takeWhile isBlank = as := by
  rw [List.takeWhile_append_of_pos fun c hc => isBlankText_iff.mp has c hc]
  cases bs with
  | nil => rw [List.takeWhile_nil, List.append_nil]
  | cons c bs => rw [List.takeWhile_cons_of_neg (by simpa using hbs), List.append_nil]

namespace Object

variable {o : Object}

/-- What is written for the fields of a new object. -/
def fieldsText (o : Object) : List Char :=
  if isInlineKind o.isa then renderInline (.dict o.fields) else renderBlock tableIndent (.dict o.fields)

/-- What is written for a new object, from the id to the semicolon. -/
def entryText (o : Object) : List Char :=
  renderScalar ⟨o.id, o.comment⟩ ++ " =".toList ++ ' ' :: (o.fieldsText ++ [';'])

theorem lines_eq (o : Object) : o.lines = tableIndent ++ o.entryText ++ ['\n'] := by
  have hspace : " = ".toList = " =".toList ++ [' '] := rfl
  have hend : ";".toList = [';'] := rfl
  rw [lines, renderObject, entryText, fieldsText, hspace, hend]
  simp only [List.append_assoc, List.cons_append, List.nil_append, if_true]

theorem IsProper.entryText_head? (h : o.IsProper) (rest : List Char) :
    (o.entryText ++ rest).head?.all (!isBlank ·) = true := by
  obtain ⟨c, s, hs, hblank, -⟩ := (h.id.isWritten h.comment).startsSolid isEnd_space
    ('=' :: ' ' :: (o.fieldsText ++ [';']) ++ rest)
  have hsplit : o.entryText ++ rest =
      renderScalar ⟨o.id, o.comment⟩ ++ ' ' :: ('=' :: ' ' :: (o.fieldsText ++ [';']) ++ rest) := by
    rw [entryText]
    simp
  rw [hsplit, hs]
  simp [hblank]

theorem entryText_getLast? (o : Object) : o.entryText.getLast? = some ';' := by
  rw [entryText, ← List.cons_append, ← List.append_assoc, List.getLast?_concat]

/-- The fields are on one line if the object is of a kind that is written on one line and takes one line. -/
theorem mem_fieldsText_iff (h : isInlineKind o.isa = true → o.OnLine) :
    '\n' ∈ o.fieldsText ↔ isInlineKind o.isa = false := by
  rw [fieldsText]
  cases hkind : isInlineKind o.isa with
  | true =>
    have honLine := h hkind
    rw [OnLine, renderObject] at honLine
    simp only [if_true, List.mem_append, not_or] at honLine ⊢
    simpa using honLine.1.1.2
  | false =>
    obtain ⟨id, ⟨entries, spellings⟩, comment⟩ := o
    simp [renderBlock]

end Object

/-- An object that stands as it is written has the indent of new ones, and nothing is around it. -/
theorem ObjectLines.split_of_lines {l : ObjectLines} (h : l.text = l.object.lines) :
    l.indent = tableIndent ∧ l.entry = l.object.entryText ∧ l.tail = [] := by
  obtain ⟨d, s, hentry, hblank⟩ := l.entry_ne_nil
  rw [text, Object.lines_eq, List.append_cancel_right_eq, List.append_assoc] at h
  have hindent : l.indent = tableIndent := by
    have htake := congrArg (List.takeWhile isBlank) h
    rwa [takeWhile_isBlank l.indent_isIndent.blank (by rw [hentry]; simp [hblank]), ← List.append_nil (tableIndent ++ _),
      List.append_assoc, takeWhile_isBlank rfl (l.isProper.entryText_head? [])] at htake
  rw [hindent, List.append_cancel_left_eq] at h
  have htail : l.tail = [] := by
    cases htail : l.tail using List.reverseRecOn with
    | nil => rfl
    | append_singleton tail c =>
      have hlast := congrArg List.getLast? h
      rw [htail, ← List.append_assoc, List.getLast?_concat, Object.entryText_getLast?] at hlast
      have hc := isBlankText_iff.mp l.tail_isIndent.blank c (by rw [htail]; simp)
      rw [Option.some.inj hlast] at hc
      exact absurd hc (by decide)
  rw [htail, List.append_nil] at h
  exact ⟨hindent, h, htail⟩

/-! ## Texts as they are written -/

/-- The sections hold objects only, and each object stands as it is written anew. -/
structure Layout.IsRendered (L : Layout) (lead gap : List Filler) : Prop where
  spaced : L.IsSpaced lead gap
  parts : ∀ k ∈ kindsIn L.blocks, ∀ p ∈ k.parts, ∃ l, p = .object l
  lines : ∀ l ∈ L.objects, l.text = l.object.lines

section

variable {L : Layout} {lead gap : List Filler} {source : String} {g₀ g : Graph} {l : ObjectLines} {n : Nat} {e : Edit}
  {t : List Char}

/-- The entry of an object on one line is known to be on one line. -/
theorem Member.inline_of_lines {m : Member} {rest : List Char} (hread : m.IsReadFromKey) (hlines : l.text = l.object.lines)
    (honLine : isInlineKind l.object.isa = true → l.object.OnLine) (hopened : m.opened = l.entry ++ (l.tail ++ '\n' :: rest))
    (hclosed : m.closed = l.tail ++ '\n' :: rest) : m.inline = isInlineKind l.object.isa := by
  obtain ⟨-, hentry, htail⟩ := ObjectLines.split_of_lines hlines
  obtain ⟨left, hscalar, hequals⟩ := hread
  have hbody : m.body = ' ' :: (l.object.fieldsText ++ [';']) ++ '\n' :: rest := by
    obtain ⟨hkey, hbody⟩ := (l.isProper.id.isWritten l.isProper.comment).reads_key
      (' ' :: (l.object.fieldsText ++ [';']) ++ '\n' :: rest)
    rw [hopened, htail, hentry, Object.entryText, List.nil_append, List.append_assoc, hkey] at hscalar
    obtain ⟨-, rfl⟩ := Prod.mk.inj (Except.ok.inj hscalar)
    exact Except.ok.inj (hequals.symm.trans hbody)
  have hmem := Object.mem_fieldsText_iff honLine
  rw [Member.inline, hclosed, htail, List.nil_append, hbody, take_sub_length]
  cases hkind : isInlineKind l.object.isa with
  | true => simpa [hkind] using hmem
  | false => simpa [hkind] using hmem

/-- The span of an object says that it is written as new ones are. -/
theorem Layout.IsRendered.lookup_span (h : L.IsRendered lead gap) (hload : Graph.load source L.text = .ok g₀)
    (hat : L.At n (.part (.object l))) (honLine : isInlineKind l.object.isa = true → l.object.OnLine) :
    g₀.spans.lookup l.id = some ⟨n, n + l.text.length, tableIndent, true, isInlineKind l.object.isa⟩ := by
  have hlines := h.lines l hat.mem_objects
  obtain ⟨inline, hspan⟩ := (loaded_of_load hload).toLaid.exists_span hat
  obtain ⟨ms, hspans, hpairs, hmembers⟩ := exists_spans hload
  have hmem := Dict.mem_of_lookup hspan
  rw [hspans] at hmem
  obtain ⟨m, hm, heq⟩ := List.mem_map.mp hmem
  obtain ⟨hid, hspanOf⟩ := Prod.mk.inj heq
  obtain ⟨hread, as, o, bs, hcells, hpair, hopened, hclosed⟩ := hmembers m hm
  have ho : o ∈ L.objects := Layout.mem_objects.mpr (by rw [hcells]; simp)
  obtain rfl : o = l := Layout.eq_of_id_eq ho hat.mem_objects (by
    rw [← hid, (Prod.mk.inj hpair).1]
    rfl)
  have hsplit : L.text = (L.head ++ textOf as) ++ o.text ++ (textOf bs ++ L.closing) := by
    simp [Layout.text, hcells, Cell.text, Part.text]
  rw [hsplit, spanOf_object (L.head_lines.append_textOf as) o hopened hclosed, Span.mk.injEq] at hspanOf
  rw [hspan, ← hspanOf.2.2.2.2, Member.inline_of_lines hread hlines honLine hopened hclosed,
    (ObjectLines.split_of_lines hlines).1]

/-- An object that was touched is written as new ones are. -/
theorem Layout.IsRendered.text_of_changeEdits (h : L.IsRendered lead gap) (hload : Graph.load source L.text = .ok g₀)
    (hfollows : Follows g₀ g) (hkinds : KeepsKinds g₀ g)
    (honLine : ∀ l ∈ L.objects, l.id ∈ g.touched → isInlineKind l.object.isa = true → l.object.OnLine)
    (he : e ∈ g.changeEdits) : ∃ o, g.get? o.id = some o ∧ o.id ∈ g.touched ∧ o.id ∉ g.removed ∧
      e.text = o.lines := by
  have hread := loaded_of_load hload
  obtain ⟨id, htouched, span, o, hspan, hget, hremoved, rfl⟩ := mem_changeEdits he
  obtain ⟨ho, rfl⟩ := Graph.get?_mem hget
  refine ⟨o, hget, htouched, hremoved, ?_⟩
  obtain ⟨l, inline, n, hat, hid, -⟩ := (hfollows.laid hread.toLaid).spans o.id span hspan
  have hisa : o.isa = l.object.isa := by
    refine hkinds l.object ?_ (by rw [← hid] at hremoved; exact hremoved) o ho hid.symm
    rw [hread.objects]
    exact List.mem_map_of_mem hat.mem_objects
  have hlookup := h.lookup_span hload hat (honLine l hat.mem_objects (hid ▸ htouched))
  rw [hfollows.frame] at hspan
  rw [← hid, hlookup] at hspan
  obtain rfl := Option.some.inj hspan
  rw [Object.lines, hisa]

/-! ## What is written -/

section Rewritten

variable (h : L.IsRendered lead gap) (hload : Graph.load source L.text = .ok g₀) (hfollows : Follows g₀ g)
  (hrewrites : Rewrites L lead gap g)
  (honLine : ∀ l ∈ L.objects, l.id ∈ g.touched → isInlineKind l.object.isa = true → l.object.OnLine)

include h hload hfollows hrewrites honLine

/-- An object that was read and is still there is written as it is now. -/
theorem Layout.IsRendered.again_text (w : Writer L g) (hl : l ∈ L.objects) (hremoved : l.id ∉ g.removed) :
    ∃ o, g.get? l.id = some o ∧ (w.again l).text = o.lines := by
  have hread := loaded_of_load hload
  obtain ⟨n, hat⟩ : ∃ n, L.At n (.part (.object l)) := by
    obtain ⟨as, bs, hcells⟩ := List.append_of_mem (Layout.mem_objects.mp hl)
    exact ⟨_, as, bs, hcells, rfl⟩
  obtain ⟨-, o, ho, hid, hisa, hget⟩ := hrewrites.exists_kept hl hremoved
  refine ⟨o, hget, (w.again_text n l hat hremoved).symm.trans ?_⟩
  by_cases htouched : l.id ∈ g.touched
  · have hlookup := h.lookup_span hload hat (honLine l hl htouched)
    have hmem : (⟨n, n + l.text.length, renderObject o tableIndent (isInlineKind l.object.isa) true⟩ : Edit) ∈
        g.changeEdits := by
      refine List.mem_filterMap.mpr ⟨l.id, htouched, ?_⟩
      rw [hfollows.frame] at hget ⊢
      simp only [hlookup, hget]
      rw [if_neg (by simpa using hremoved)]
    rw [replaced_of_covers hrewrites.pairwise (mem_editsInOrder.mpr (mem_edits.mpr (.inr (.inr (.inl hmem)))))
      (covers_lines l _ _), if_pos rfl, Object.lines, hisa]
  · have hsame : o = l.object := by
      obtain ⟨-, p, hp, hpid, hstays⟩ := hfollows.kept l.object (by rw [hread.objects]; exact List.mem_map_of_mem hl) hremoved
      rw [← hstays htouched]
      exact List.inj_on_of_nodup_map hfollows.nodup ho hp (hid.trans hpid.symm)
    rw [replaced_of_not_covers fun e he =>
      hfollows.not_covers hread.toLaid hat hremoved htouched (mem_editsInOrder.mp he), h.lines l hl, hsame]

/-- Every object of a section that is written is written as it is now. -/
theorem Layout.IsRendered.text_of_kinds (w : Writer L g) {k : Kind} (hk : k ∈ w.kinds) (hl : l ∈ k.objects) :
    ∃ o, g.get? l.id = some o ∧ l.text = o.lines := by
  have hnew {isa : String} (hl : l ∈ w.newLines isa) : ∃ o, g.get? l.id = some o ∧ l.text = o.lines := by
    obtain ⟨o, ho, rfl⟩ := List.mem_map.mp hl
    refine ⟨o, ?_, w.new_text isa o ho⟩
    rw [w.new_id isa o ho]
    exact Graph.get?_of_mem hfollows.nodup (mem_newcomers ho).2.1
  rcases w.mem_kinds hk with hk | ⟨k₀, hk₀, -, rfl⟩
  · rw [w.objects_newKinds hk] at hl
    exact hnew hl
  · rw [w.objects_refill] at hl
    rcases mem_weave.mp hl with hl | ⟨l₀, hl₀, hl⟩
    · exact hnew hl
    · obtain ⟨hremoved, rfl⟩ := w.mem_image hl
      rw [w.again_id]
      exact h.again_text hload hfollows hrewrites honLine w (mem_objects_of_kind hk₀ hl₀) hremoved

omit hload hfollows hrewrites honLine in
theorem Layout.IsRendered.parts_of_kinds (w : Writer L g) {k : Kind} (hk : k ∈ w.kinds) {p : Part} (hp : p ∈ k.parts) :
    ∃ l, p = .object l := by
  rcases w.mem_kinds hk with hk | ⟨k₀, hk₀, -, rfl⟩
  · rw [w.parts_newKinds hk] at hp
    obtain ⟨l, -, rfl⟩ := List.mem_map.mp hp
    exact ⟨l, rfl⟩
  · rcases mem_weave.mp hp with hp | ⟨p₀, hp₀, hp⟩
    · obtain ⟨l, -, rfl⟩ := List.mem_map.mp hp
      exact ⟨l, rfl⟩
    · obtain ⟨l₀, rfl⟩ := h.parts k₀ hk₀ p₀ hp₀
      obtain ⟨l, -, rfl⟩ := List.mem_map.mp hp
      exact ⟨l, rfl⟩

end Rewritten

/-! ## Objects that are kept -/

/-- Another text has the same lines around the table, and the objects of every section in the order that they stand in,
among others. -/
structure Layout.Extends (L L' : Layout) : Prop where
  head : L'.head = L.head
  closing : L'.closing = L.closing
  kinds : ∀ k ∈ kindsIn L.blocks, ∃ k' ∈ kindsIn L'.blocks, k'.isa = k.isa ∧
    (k.objects.map ObjectLines.id).Sublist (k'.objects.map ObjectLines.id)

theorem Layout.extends_refl (L : Layout) : L.Extends L where
  head := rfl
  closing := rfl
  kinds k hk := ⟨k, hk, rfl, .refl _⟩

variable {L₀ : Layout}

/-- A text of which nothing is removed is extended by what is written. -/
theorem Layout.IsRendered.exists_rewritten (h : L.IsRendered lead gap) (hload : Graph.load source L.text = .ok g₀)
    (hfollows : Follows g₀ g) (hkinds : KeepsKinds g₀ g) (honce : g.AddsOnce) (hunmarked : g.WritesNoMarkers)
    (honLine : ∀ l ∈ L.objects, l.id ∈ g.touched → isInlineKind l.object.isa = true → l.object.OnLine)
    (h₀ : L₀.IsRendered lead gap) (hne : kindsIn L₀.blocks ≠ []) (hextends : L₀.Extends L)
    (hkept : ∀ l ∈ L₀.objects, l.id ∉ g.removed) (ht : g.serialise = .ok t) :
    ∃ L' : Layout, L'.IsRendered lead gap ∧ L'.text = t ∧ L₀.Extends L' ∧
      ∀ l ∈ L'.objects, ∃ o ∈ g.objects, l.object = o.tidy := by
  have happly := applyEdits_of_serialise ht
  have hrewrites := hfollows.rewrites h.spaced hload hkinds hunmarked happly
  obtain ⟨w⟩ := hrewrites.nonempty_writer
  -- The sections of the first text are not lost.
  have hstays (k₀ : Kind) (hk₀ : k₀ ∈ kindsIn L₀.blocks) : ∃ k ∈ kindsIn L.blocks, k.isa = k₀.isa ∧
      g.loses k = false ∧ (k₀.objects.map ObjectLines.id).Sublist ((w.refill k).objects.map ObjectLines.id) := by
    obtain ⟨k, hk, hisa, hsub⟩ := hextends.kinds k₀ hk₀
    have hids : ∀ id ∈ k₀.objects.map ObjectLines.id, id ∉ g.removed := by
      intro id hid
      obtain ⟨l, hl, rfl⟩ := List.mem_map.mp hid
      exact hkept l (mem_objects_of_kind hk₀ hl)
    refine ⟨k, hk, hisa, ?_, ?_⟩
    · obtain ⟨l, hl⟩ := List.exists_mem_of_ne_nil _ (h₀.spaced.filled k₀ hk₀)
      obtain ⟨l', hl', hid⟩ := List.mem_map.mp (hsub.subset (List.mem_map_of_mem hl))
      rw [Graph.loses, Bool.and_eq_false_iff]
      refine .inl (List.all_eq_false.mpr ⟨l', hl', ?_⟩)
      rw [hid]
      simpa using hids l.id (List.mem_map_of_mem hl)
    · have hfilter := hsub.filter fun id => !g.removed.contains id
      rw [List.filter_eq_self.mpr fun id hid => by simpa using hids id hid, ← w.map_id_images] at hfilter
      rw [w.objects_refill]
      exact hfilter.trans (sublist_weave.map _)
  obtain ⟨L', gap', hspaced, htext, hin, hhead, hclosing, hgap⟩ := hrewrites.exists_spaced w honce happly
  obtain rfl : gap' = gap := by
    obtain ⟨k₀, hk₀⟩ := List.exists_mem_of_ne_nil _ hne
    obtain ⟨k, hk, -, hkept, -⟩ := hstays k₀ hk₀
    exact hgap ⟨k, hk, hkept⟩
  -- What is written is read as it is in the graph.
  have hobjects : ∀ l ∈ L'.objects, ∃ o ∈ g.objects, l.object = o.tidy ∧ l.text = o.lines := by
    intro l hl
    obtain ⟨g', hload', hmatches, -⟩ := hfollows.load_serialise (loaded_of_load hload) ht source
    rw [← htext] at hload'
    have hread' := loaded_of_load hload'
    have hin' : l ∈ (kindsIn L'.blocks).flatMap Kind.objects := by
      rwa [← objectsIn_cellsOf]
    obtain ⟨k, hk, hl'⟩ := List.mem_flatMap.mp hin'
    obtain ⟨o, hget, htext⟩ := h.text_of_kinds hload hfollows hrewrites honLine w (hin ▸ hk) hl'
    have hget' : g'.get? l.id = some l.object :=
      Graph.get?_of_mem hread'.follows.nodup (by rw [hread'.objects]; exact List.mem_map_of_mem hl)
    rw [hmatches.get?, hget] at hget'
    exact ⟨o, (Graph.get?_mem hget).1, (Option.some.inj hget').symm, htext⟩
  refine ⟨L', ⟨hspaced, fun k hk p hp => ?_, fun l hl => ?_⟩, htext, ⟨hhead.trans hextends.head,
    hclosing.trans hextends.closing, fun k₀ hk₀ => ?_⟩, fun l hl => ?_⟩
  · rw [hin] at hk
    exact h.parts_of_kinds w hk hp
  · obtain ⟨o, ho, hobject, htext⟩ := hobjects l hl
    rw [htext, hobject, (hfollows.proper o ho).lines_tidy]
  · obtain ⟨k, hk, hisa, hkept, hsub⟩ := hstays k₀ hk₀
    refine ⟨w.refill k, ?_, hisa, hsub⟩
    rw [hin]
    exact mem_weave.mpr (.inr ⟨k, hk, by rw [w.kept_of_not_loses hkept]; simp⟩)
  · obtain ⟨o, ho, hobject, -⟩ := hobjects l hl
    exact ⟨o, ho, hobject⟩

/-! ## The same text -/

theorem map_eq_of_map_eq {α β γ δ : Type} {f : α → γ} {f' : β → γ} {r : α → δ} {r' : β → δ} {as : List α} {bs : List β}
    (h : as.map f = bs.map f') (hsame : ∀ a ∈ as, ∀ b ∈ bs, f a = f' b → r a = r' b) : as.map r = bs.map r' := by
  induction as generalizing bs with
  | nil => rw [List.map_eq_nil_iff.mp h.symm, List.map_nil, List.map_nil]
  | cons a as ih =>
    obtain ⟨b, bs, rfl⟩ := List.exists_cons_of_ne_nil (l := bs) (by rintro rfl; simp at h)
    obtain ⟨hab, h⟩ := List.cons.inj h
    rw [List.map_cons, List.map_cons, hsame a (by simp) b (by simp) hab,
      ih h fun a ha b hb => hsame a (by simp [ha]) b (by simp [hb])]

theorem kindsText_congr {ks ks' : List Kind} (h : ks.map (fun k => textOf k.cells) = ks'.map fun k => textOf k.cells) :
    kindsText ks = kindsText ks' := by
  induction ks generalizing ks' with
  | nil => rw [List.map_eq_nil_iff.mp h.symm]
  | cons k ks ih =>
    obtain ⟨k', ks', rfl⟩ := List.exists_cons_of_ne_nil (l := ks') (by rintro rfl; simp at h)
    obtain ⟨hk, hks⟩ := List.cons.inj h
    have hk : textOf k.cells = textOf k'.cells := hk
    by_cases hne : ks = []
    · obtain rfl : ks' = [] := by simpa [hne] using hks.symm
      rw [hne, kindsText_singleton, kindsText_singleton, hk]
    · have hne' : ks' ≠ [] := fun e => hne (by simpa [e] using hks)
      rw [kindsText_cons k hne, kindsText_cons k' hne', hk, ih hks]

/-- The text of a section of objects. -/
theorem Layout.IsRendered.textOf_cells (h : L.IsRendered lead gap) {k : Kind} (hk : k ∈ kindsIn L.blocks) :
    textOf k.cells = markerLine true k.isa ++ ((k.objects.map ObjectLines.text).flatten ++ markerLine false k.isa) := by
  have hparts : k.parts.map Part.text = k.objects.map ObjectLines.text := by
    have hobjects := h.parts k hk
    rw [Kind.objects]
    generalize k.parts = ps at hobjects
    induction ps with
    | nil => rfl
    | cons p ps ih =>
      obtain ⟨l, rfl⟩ := hobjects p List.mem_cons_self
      exact congrArg (l.text :: ·) (ih fun p hp => hobjects p (List.mem_cons_of_mem _ hp))
  rw [← hparts, Kind.cells, textOf_cons, textOf_append, textOf_cons, textOf_nil, List.append_nil, textOf, List.map_map]
  rfl

/-- A text that extends another one by nothing is that text. -/
theorem Layout.IsRendered.text_eq_of_extends (h : L.IsRendered lead gap) (h₀ : L₀.IsRendered lead gap)
    (hextends : L₀.Extends L) (hobjects : ∀ l ∈ L.objects, ∃ l₀ ∈ L₀.objects, l.object = l₀.object) : L.text = L₀.text := by
  -- A section holds objects of the section of its kind in the other text.
  have hin : ∀ k ∈ kindsIn L.blocks, ∀ l ∈ k.objects, ∃ k₀ ∈ kindsIn L₀.blocks, (∃ l₀ ∈ k₀.objects,
      l.object = l₀.object) ∧ k₀.isa = k.isa := by
    intro k hk l hl
    obtain ⟨l₀, hl₀, hobject⟩ := hobjects l (mem_objects_of_kind hk hl)
    rw [Layout.objects, Layout.cells, objectsIn_cellsOf] at hl₀
    obtain ⟨k₀, hk₀, hl₀⟩ := List.mem_flatMap.mp hl₀
    refine ⟨k₀, hk₀, ⟨l₀, hl₀, hobject⟩, ?_⟩
    rw [← k₀.own l₀ (Layout.mem_kind_objects.mp hl₀), ← k.own l (Layout.mem_kind_objects.mp hl), hobject]
  have hisas : (kindsIn L.blocks).map Kind.isa = (kindsIn L₀.blocks).map Kind.isa := by
    refine List.Perm.eq_of_pairwise (fun a b _ _ hlt hgt => absurd (lt_trans hlt hgt) (lt_irrefl a))
      h.spaced.sorted h₀.spaced.sorted ((List.perm_ext_iff_of_nodup L.isas_nodup L₀.isas_nodup).mpr fun isa => ?_)
    constructor
    · intro hisa
      obtain ⟨k, hk, rfl⟩ := List.mem_map.mp hisa
      obtain ⟨l, hl⟩ := List.exists_mem_of_ne_nil _ (h.spaced.filled k hk)
      obtain ⟨k₀, hk₀, -, hkind⟩ := hin k hk l hl
      exact List.mem_map.mpr ⟨k₀, hk₀, hkind⟩
    · intro hisa
      obtain ⟨k₀, hk₀, rfl⟩ := List.mem_map.mp hisa
      obtain ⟨k, hk, hkind, -⟩ := hextends.kinds k₀ hk₀
      exact List.mem_map.mpr ⟨k, hk, hkind⟩
  have hsection : ∀ k ∈ kindsIn L.blocks, ∀ k₀ ∈ kindsIn L₀.blocks, k.isa = k₀.isa →
      textOf k.cells = textOf k₀.cells := by
    intro k hk k₀ hk₀ hisa
    obtain ⟨k', hk', hisa', hsub⟩ := hextends.kinds k₀ hk₀
    obtain rfl : k' = k := List.inj_on_of_nodup_map L.isas_nodup hk' hk (hisa'.trans hisa.symm)
    have hsubset : k'.objects.map ObjectLines.id ⊆ k₀.objects.map ObjectLines.id := by
      intro id hid
      obtain ⟨l, hl, rfl⟩ := List.mem_map.mp hid
      obtain ⟨k₁, hk₁, ⟨l₀, hl₀, hobject⟩, hkind⟩ := hin k' hk l hl
      obtain rfl : k₁ = k₀ := List.inj_on_of_nodup_map L₀.isas_nodup hk₁ hk₀ (hkind.trans hisa)
      exact List.mem_map.mpr ⟨l₀, hl₀, (congrArg Object.id hobject).symm⟩
    have hids : k₀.objects.map ObjectLines.id = k'.objects.map ObjectLines.id :=
      hsub.eq_of_length_le ((nodup_ids_of_kind hk).subperm hsubset).length_le
    rw [h.textOf_cells hk, h₀.textOf_cells hk₀, hisa]
    congr 3
    refine map_eq_of_map_eq hids.symm fun l hl l₀ hl₀ hid => ?_
    obtain ⟨l₁, hl₁, hobject⟩ := hobjects l (mem_objects_of_kind hk hl)
    obtain rfl : l₁ = l₀ := Layout.eq_of_id_eq hl₁ (mem_objects_of_kind hk₀ hl₀) ((congrArg Object.id hobject).symm.trans hid)
    rw [h.lines l (mem_objects_of_kind hk hl), h₀.lines l₁ hl₁, hobject]
  rw [h.spaced.text_eq, h₀.spaced.text_eq, hextends.head, hextends.closing,
    kindsText_congr (map_eq_of_map_eq hisas hsection)]

end

end Xcode
end ModuleLink
