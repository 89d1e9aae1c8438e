import ModuleLink.Proofs.Xcode.Ids
import ModuleLink.Proofs.Xcode.Markers
import ModuleLink.Proofs.Xcode.Tables

/-!
The graph that a text in Xcode layout is read into.
-/

namespace ModuleLink
namespace Xcode

open Plist

/-! ## Cells -/

/-- Cells of a table are read one after the other. -/
theorem reads_cells {cs : List Cell} (hcs : ∀ opens isa, .marker opens isa ∈ cs → ∀ c ∈ isa.toList, Text.isWord c = true)
    {rest left : List Char} (h : Reads (.members []) rest left) :
    ∃ ms, Reads (.members ms) (textOf cs ++ rest) left ∧
      ms.map Member.pair = (objectsIn cs).map ObjectLines.pair ∧
      ∀ m ∈ ms, ∃ as o bs, cs = as ++ .part (.object o) :: bs ∧ m.pair = o.pair ∧
        m.opened = o.entry ++ (o.tail ++ '\n' :: (textOf bs ++ rest)) ∧
        m.closed = o.tail ++ '\n' :: (textOf bs ++ rest) := by
  induction cs with
  | nil => exact ⟨[], h, rfl, by simp⟩
  | cons c cs ih =>
    obtain ⟨ms, hms, hpairs, hplaces⟩ := ih fun opens isa hmem => hcs opens isa (by simp [hmem])
    have hlater : ∀ m ∈ ms, ∃ as o bs, c :: cs = as ++ .part (.object o) :: bs ∧ m.pair = o.pair ∧
        m.opened = o.entry ++ (o.tail ++ '\n' :: (textOf bs ++ rest)) ∧
        m.closed = o.tail ++ '\n' :: (textOf bs ++ rest) := by
      intro m hm
      obtain ⟨as, o, bs, hsplit, hm⟩ := hplaces m hm
      exact ⟨c :: as, o, bs, by rw [hsplit]; rfl, hm⟩
    rw [textOf_cons, List.append_assoc]
    have hgap (hg : Gap c.text) (hnone : c.object? = none) :
        ∃ ms, Reads (.members ms) (c.text ++ (textOf cs ++ rest)) left ∧
          ms.map Member.pair = (objectsIn (c :: cs)).map ObjectLines.pair ∧
          ∀ m ∈ ms, ∃ as o bs, c :: cs = as ++ .part (.object o) :: bs ∧ m.pair = o.pair ∧
            m.opened = o.entry ++ (o.tail ++ '\n' :: (textOf bs ++ rest)) ∧
            m.closed = o.tail ++ '\n' :: (textOf bs ++ rest) := by
      refine ⟨ms, hms.append_gap hg, ?_, hlater⟩
      rw [hpairs, objectsIn, objectsIn, List.filterMap_cons_none hnone]
    cases c with
    | marker opens isa => exact hgap (gap_markerLine (hcs opens isa (by simp)) opens) rfl
    | part p =>
      cases p with
      | filler f => exact hgap f.gap rfl
      | object o =>
        have htail : Gap (o.tail ++ ['\n']) := o.tail_isIndent.gap.append gap_newline
        obtain ⟨body, hreads⟩ := o.isEntry (hms.append_gap htail)
        refine ⟨⟨o.key, .dict o.fields, o.entry ++ (o.tail ++ '\n' :: (textOf cs ++ rest)), body,
          o.tail ++ '\n' :: (textOf cs ++ rest)⟩ :: ms, ?_, ?_, ?_⟩
        · have hlines := hreads.append_gap o.indent_isIndent.gap
          simpa [Cell.text, Part.text, ObjectLines.text] using hlines
        · rw [List.map_cons, hpairs, objectsIn_object, List.map_cons]
          rfl
        · intro m hm
          rcases List.mem_cons.mp hm with rfl | hm
          · exact ⟨[], o, cs, rfl, rfl, rfl, rfl⟩
          · exact hlater m hm

theorem isWord_of_marker_mem {bs : List Block} {opens : Bool} {isa : String} (h : .marker opens isa ∈ cellsOf bs) :
    ∀ c ∈ isa.toList, Text.isWord c = true := by
  obtain ⟨b, -, hb⟩ := List.mem_flatMap.mp h
  cases b with
  | filler f => exact absurd hb (by simp [Block.cells])
  | kind k =>
    simp only [Block.cells, Kind.cells, List.mem_cons, List.mem_append, List.mem_map, Cell.marker.injEq, reduceCtorEq,
      and_false, exists_false, List.not_mem_nil, or_false, false_or] at hb
    rcases hb with ⟨-, rfl⟩ | ⟨-, rfl⟩ <;> exact k.isa_word

/-! ## Spans -/

theorem takeWhile_line {line : List Char} (h : '\n' ∉ line) (rest : List Char) :
    (line ++ '\n' :: rest).takeWhile (· != '\n') = line := by
  have hall : ∀ c ∈ line, (c != '\n') = true := fun c hc => by
    simp only [bne_iff_ne]
    rintro rfl
    exact h hc
  rw [List.takeWhile_append_of_pos hall, List.takeWhile_cons_of_neg (by decide), List.append_nil]

theorem take_sub_length (a b : List Char) : (a ++ b).take ((a ++ b).length - b.length) = a := by
  rw [List.length_append, Nat.add_sub_cancel, List.take_left]

/-- The span of an object is its lines. -/
theorem spanOf_object {pre post : List Char} (hpre : IsLines pre) (o : ObjectLines) {m : Member}
    (hopened : m.opened = o.entry ++ (o.tail ++ '\n' :: post)) (hclosed : m.closed = o.tail ++ '\n' :: post) :
    spanOf (pre ++ o.text ++ post) m = ⟨pre.length, pre.length + o.text.length, o.indent, true, m.inline⟩ := by
  obtain ⟨u, rfl⟩ := hpre
  have htext : u ++ ['\n'] ++ o.text ++ post = (u ++ '\n' :: o.indent) ++ m.opened := by
    rw [hopened, ObjectLines.text]
    simp only [List.append_assoc, List.cons_append, List.nil_append]
  have hindent : lineBefore (u ++ ['\n'] ++ o.text ++ post) m.opened = o.indent := by
    rw [htext, lineBefore, take_sub_length, List.reverse_append, List.reverse_cons, List.append_assoc,
      List.singleton_append, takeWhile_line (by simpa using o.indent_isIndent.line), List.reverse_reverse]
  have htail : m.closed.takeWhile (· != '\n') = o.tail := by
    rw [hclosed, takeWhile_line o.tail_isIndent.line]
  have hstart : (u ++ ['\n'] ++ o.text ++ post).length - m.opened.length = (u ++ ['\n']).length + o.indent.length := by
    rw [htext]
    simp only [List.length_append, List.length_cons, List.length_nil]
    omega
  have hlen : (u ++ ['\n'] ++ o.text ++ post).length =
      (u ++ ['\n']).length + o.text.length + post.length := by
    simp only [List.length_append]
  have hobject : o.text.length = o.indent.length + o.entry.length + o.tail.length + 1 := by
    simp only [ObjectLines.text, List.length_append, List.length_cons, List.length_nil]
  have hclosedLength : m.closed.length = o.tail.length + (post.length + 1) := by
    rw [hclosed, List.length_append, List.length_cons]
  rw [spanOf]
  simp only [hindent, htail, hlen, hclosedLength, o.indent_isIndent.blank, o.tail_isIndent.blank, Bool.and_true,
    if_true]
  have hend : (u ++ ['\n']).length + o.text.length + post.length - (o.tail.length + (post.length + 1)) + o.tail.length <
      (u ++ ['\n']).length + o.text.length + post.length := by omega
  rw [if_pos hend]
  congr 1
  · omega
  · omega

/-! ## The graph -/

/-- The graph is about a text in Xcode layout: it knows the place of every object, and its sections are those of the
kinds. -/
structure Laid (L : Layout) (g : Graph) : Prop where
  text : g.text = L.text
  tableEnd : g.tableEnd = (L.head ++ textOf L.cells ++ L.indent).length
  root : g.root.spellings = L.root.spellings ∧ ∃ v, g.root.entries = L.root.entries.map fun e =>
    (e.1, if e.1 = tableKey then v else e.2)
  spans : ∀ id span, g.spans.lookup id = some span → ∃ o inline n, L.At n (.part (.object o)) ∧ o.id = id ∧
    span = ⟨n, n + o.text.length, o.indent, true, inline⟩
  spans_some : ∀ o ∈ L.objects, ∃ span, g.spans.lookup o.id = some span
  sections : ∀ s ∈ g.sections, ∃ as k bs, L.blocks = as ++ .kind k :: bs ∧
    s = { k.sectionAt (L.head.length + (textOf (cellsOf as)).length) with members := s.members } ∧
    ∀ id, id ∈ s.members ↔ ∃ o ∈ k.objects, o.id = id

/-- The graph has just been read. -/
structure Loaded (L : Layout) (g : Graph) : Prop extends Laid L g where
  objects : g.objects = L.objects.map ObjectLines.object
  index : ∀ k, listed g.index k = idsOfKind g.objects k
  added : g.added = []
  removed : g.removed = []
  touched : g.touched = []

theorem ObjectLines.pair_object (o : ObjectLines) : o.object.pair = o.pair := by
  refine Prod.ext ?_ rfl
  show Scalar.mk o.id o.key.comment = o.key
  rw [← o.key_text]

namespace Layout

variable (L : Layout)

/-- A place of an object is the only one. -/
theorem At.eq_of_id {L : Layout} {n m : Nat} {o o' : ObjectLines} (hn : L.At n (.part (.object o)))
    (hm : L.At m (.part (.object o'))) (h : o.id = o'.id) : n = m := by
  have hlt {n m : Nat} {o o' : ObjectLines} (hn : L.At n (.part (.object o))) (hm : L.At m (.part (.object o')))
      (h : o.id = o'.id) : ¬ n < m := by
    intro hlt
    obtain ⟨as, bs, hcells, rfl⟩ := hn
    obtain ⟨as', bs', hcells', rfl⟩ := hm
    obtain ⟨mid, rfl, hmid⟩ := exists_between (hcells.symm.trans hcells') (by omega)
    cases mid with
    | nil => simp at hlt
    | cons c mid =>
      obtain ⟨rfl, -⟩ := List.cons.inj hmid
      have hnodup := L.ids_nodup
      rw [show cellsOf L.blocks = L.cells from rfl, hcells'] at hnodup
      simp only [objectsIn_append, objectsIn_object, List.map_append, List.map_cons, List.append_assoc,
        List.cons_append] at hnodup
      have hnodup' := (List.nodup_append.mp hnodup).2.1
      rw [List.nodup_cons] at hnodup'
      exact hnodup'.1 (by simp [h])
  have h₁ := hlt hn hm h
  have h₂ := hlt hm hn h.symm
  omega

theorem exists_at {L : Layout} {o : ObjectLines} (h : o ∈ L.objects) : ∃ n, L.At n (.part (.object o)) := by
  obtain ⟨as, bs, hcells⟩ := List.append_of_mem (mem_objects.mp h)
  exact ⟨_, as, bs, hcells, rfl⟩

theorem map_key_value {ms : List Member} {os : List ObjectLines}
    (h : ms.map Member.pair = os.map ObjectLines.pair) : ms.map (·.key.value) = os.map ObjectLines.id := by
  have hvalues := congrArg (List.map fun p => p.1.value) h
  rw [List.map_map, List.map_map] at hvalues
  exact hvalues

/-- Entries of a table are the objects that they say. -/
theorem objectsOf_members {ms : List Member} (h : ms.map Member.pair = L.objects.map ObjectLines.pair) (source : String) :
    objectsOf source (Dict.ofMembers ms) = .ok (L.objects.map ObjectLines.object) := by
  refine (objectsOf_eq_ok_iff (map_key_value h ▸ L.ids_nodup) fun m hm => ?_).mpr ?_
  · obtain ⟨o, -, hpair⟩ := List.mem_map.mp (h ▸ List.mem_map_of_mem (f := Member.pair) hm)
    rw [show m.key = o.key from (Prod.mk.inj hpair).1.symm]
    exact o.key_text.symm
  · rw [h, List.map_map]
    exact List.map_congr_left fun o _ => o.pair_object.symm

theorem mem_kind_objects {k : Kind} {o : ObjectLines} : o ∈ k.objects ↔ .object o ∈ k.parts := by
  simp only [Kind.objects, List.mem_filterMap]
  constructor
  · rintro ⟨p, hp, ho⟩
    cases p with
    | filler => contradiction
    | object o' =>
      obtain rfl := Option.some.inj ho
      exact hp
  · exact fun h => ⟨_, h, rfl⟩

/-- Every object is in the section of its kind, and no other section is of that kind. -/
theorem mem_objects_of_isa {k : Kind} (hk : .kind k ∈ L.blocks) {o : ObjectLines} (ho : o ∈ L.objects)
    (hisa : o.object.isa = k.isa) : o ∈ k.objects := by
  obtain ⟨b, hb, hcell⟩ := List.mem_flatMap.mp (mem_objects.mp ho)
  cases b with
  | filler f => exact absurd hcell (by simp [Block.cells])
  | kind k' =>
    have hpart : .object o ∈ k'.parts := by simpa [Block.cells, Kind.cells] using hcell
    have hmem (k : Kind) (hk : .kind k ∈ L.blocks) : k ∈ kindsIn L.blocks := List.mem_filterMap.mpr ⟨_, hk, rfl⟩
    have hsame : k' = k := List.inj_on_of_nodup_map L.isas_nodup (hmem k' hb) (hmem k hk)
      ((k'.own o hpart).symm.trans hisa)
    subst hsame
    exact mem_kind_objects.mpr hpart

/-- An object of a kind stands between the marker lines. -/
theorem exists_at_of_kind {as bs : List Block} {k : Kind} (hblocks : L.blocks = as ++ .kind k :: bs) {o : ObjectLines}
    (ho : o ∈ k.objects) :
    ∃ n, L.At n (.part (.object o)) ∧
      (k.sectionAt (L.head.length + (textOf (cellsOf as)).length)).beginStop ≤ n ∧
      n + o.text.length ≤ (k.sectionAt (L.head.length + (textOf (cellsOf as)).length)).endStart := by
  obtain ⟨ps, qs, hparts⟩ := List.append_of_mem (mem_kind_objects.mp ho)
  refine ⟨_, ⟨cellsOf as ++ .marker true k.isa :: ps.map .part,
    qs.map .part ++ .marker false k.isa :: cellsOf bs, ?_, rfl⟩, ?_, ?_⟩
  · rw [cells, hblocks, cellsOf_append, cellsOf_cons]
    simp [Block.cells, Kind.cells, hparts]
  · simp only [Kind.sectionAt, textOf_append, textOf_cons, List.length_append, Cell.text]
    omega
  · simp only [Kind.sectionAt, hparts, List.map_append, List.map_cons, textOf_append, textOf_cons, List.length_append,
      Cell.text, Part.text]
    omega

/-- Behind its last entry the table is closed. -/
theorem reads_closing : Reads (.members []) L.closing L.foot := by
  refine .noMember ?_
  rw [closing, L.indent_isIndent.gap.skip_append]
  exact skip_of_startsSolid (startsSolid_mark (by decide) L.foot)

/-- Entries in the place of those of the table are read, and the rest of the root as before. -/
theorem document_of_reads {table : List Char} {ms : List Member} (h : Reads (.members ms) (table ++ L.closing) L.foot) :
    ∃ root, document tableKey (L.head ++ table ++ L.closing) = .ok (root, [⟨ms, '\x7d' :: L.foot⟩]) ∧
      root.spellings = L.root.spellings ∧ ∃ v, root.entries = L.root.entries.map fun e =>
        (e.1, if e.1 = tableKey then v else e.2) := by
  have htable : Reads (.members ms) ((table ++ L.indent) ++ '\x7d' :: L.foot) L.foot := by
    rw [List.append_assoc]
    exact h
  obtain ⟨root, hdocument, hspellings, hentries⟩ := document_exchange L.emptied htable
  have htext : L.head ++ (table ++ L.indent) ++ '\x7d' :: L.foot = L.head ++ table ++ L.closing := by
    simp only [closing, List.append_assoc]
  rw [htext] at hdocument
  exact ⟨root, hdocument, hspellings, _, hentries⟩

/-- A table that carries entries is read as these entries. -/
theorem document_of_carries {table : List Char} {ks : List (Scalar × Value)} (h : Carries table ks) :
    ∃ root ms, document tableKey (L.head ++ table ++ L.closing) = .ok (root, [⟨ms, '\x7d' :: L.foot⟩]) ∧
      ms.map Member.pair = ks ∧ ∃ v, root.entries = L.root.entries.map fun e =>
        (e.1, if e.1 = tableKey then v else e.2) := by
  obtain ⟨ms, hms, hreads⟩ := h L.reads_closing
  rw [List.append_nil] at hreads
  obtain ⟨root, hdocument, -, hentries⟩ := L.document_of_reads hreads
  exact ⟨root, ms, hdocument, hms, hentries⟩

/-- The entries of the table are the objects, each read from the place it stands at. -/
theorem exists_members : ∃ ms root, document tableKey L.text = .ok (root, [⟨ms, '\x7d' :: L.foot⟩]) ∧
    (root.spellings = L.root.spellings ∧ ∃ v, root.entries = L.root.entries.map fun e =>
      (e.1, if e.1 = tableKey then v else e.2)) ∧
    ms.map Member.pair = L.objects.map ObjectLines.pair ∧
    ∀ m ∈ ms, m.IsReadFromKey ∧ ∃ as o bs, L.cells = as ++ .part (.object o) :: bs ∧ m.pair = o.pair ∧
      m.opened = o.entry ++ (o.tail ++ '\n' :: (textOf bs ++ L.closing)) ∧
      m.closed = o.tail ++ '\n' :: (textOf bs ++ L.closing) := by
  have hmarked : ∀ opens isa, .marker opens isa ∈ L.cells → ∀ c ∈ isa.toList, Text.isWord c = true :=
    fun opens isa h => isWord_of_marker_mem h
  obtain ⟨ms, hreads, hpairs, hplaces⟩ := reads_cells hmarked L.reads_closing
  obtain ⟨root, hdocument, hroot⟩ := L.document_of_reads hreads
  exact ⟨ms, root, hdocument, hroot, hpairs, fun m hm =>
    ⟨hreads.isReadFromKey rfl m hm, hplaces m hm⟩⟩

/-- A text in Xcode layout is read. -/
theorem load_text (source : String) : ∃ g, Graph.load source L.text = .ok g ∧ Loaded L g ∧ g.source = source := by
  obtain ⟨ms, root, hdocument, hroot, hpairs, hmembers⟩ := L.exists_members
  -- The span of every member is the place of its object.
  have hspan : ∀ m ∈ ms, ∃ o n, L.At n (.part (.object o)) ∧ m.key.value = o.id ∧
      spanOf L.text m = ⟨n, n + o.text.length, o.indent, true, m.inline⟩ := by
    intro m hm
    obtain ⟨-, as, o, bs, hcells, hpair, hopened, hclosed⟩ := hmembers m hm
    have hsplit : L.text = (L.head ++ textOf as) ++ o.text ++ (textOf bs ++ L.closing) := by
      simp [text, hcells, Cell.text, Part.text]
    refine ⟨o, _, ⟨as, bs, hcells, rfl⟩, by rw [(Prod.mk.inj hpair).1]; rfl, ?_⟩
    rw [hsplit, spanOf_object (L.head_lines.append_textOf as) o hopened hclosed, List.length_append]
  have hkeys : ms.map (·.key.value) = L.objects.map ObjectLines.id := map_key_value hpairs
  have hnodup : (ms.map (·.key.value)).Nodup := hkeys ▸ L.ids_nodup
  have hspans : spansOf L.text [⟨ms, '\x7d' :: L.foot⟩] = ms.map fun m => (m.key.value, spanOf L.text m) := by
    have h := Dict.foldl_assign_of_nodup (spanOf L.text) hnodup
    rw [spansOf]
    simpa using h
  have hids : (spansOf L.text [⟨ms, '\x7d' :: L.foot⟩]).map (·.1) = L.objects.map ObjectLines.id := by
    rw [hspans, List.map_map]
    exact hkeys
  generalize hspansOf : spansOf L.text [⟨ms, '\x7d' :: L.foot⟩] = spans at hspans hids
  have hlookup : ∀ id span, (id, span) ∈ spans → ∃ o inline n, L.At n (.part (.object o)) ∧ o.id = id ∧
      span = ⟨n, n + o.text.length, o.indent, true, inline⟩ := by
    intro id span hmem
    rw [hspans] at hmem
    obtain ⟨m, hm, heq⟩ := List.mem_map.mp hmem
    obtain ⟨rfl, rfl⟩ := Prod.mk.inj heq
    obtain ⟨o, n, hat, hid, hspanOf⟩ := hspan m hm
    exact ⟨o, m.inline, n, hat, hid.symm, hspanOf⟩
  have hsome : ∀ o ∈ L.objects, ∃ span, (o.id, span) ∈ spans := by
    intro o ho
    have hmem : o.id ∈ spans.map (·.1) := hids ▸ List.mem_map_of_mem ho
    obtain ⟨e, he, hid⟩ := List.mem_map.mp hmem
    exact ⟨e.2, by rw [← hid]; exact he⟩
  have hfind : ∀ o ∈ L.objects, (L.objects.map ObjectLines.object).find? (·.id == o.id) = some o.object := by
    intro o ho
    obtain ⟨x, hx⟩ : ∃ x, (L.objects.map ObjectLines.object).find? (·.id == o.id) = some x :=
      Option.isSome_iff_exists.mp (List.find?_isSome.mpr ⟨o.object, List.mem_map_of_mem ho, beq_self_eq_true _⟩)
    obtain ⟨o', ho', rfl⟩ := List.mem_map.mp (List.mem_of_find?_eq_some hx)
    have hid : (o'.object.id == o.id) = true := by simpa using List.find?_some hx
    rw [hx, eq_of_id_eq ho' ho (eq_of_beq hid)]
  have hend : L.text.length - ('\x7d' :: L.foot).length = (L.head ++ textOf L.cells ++ L.indent).length := by
    simp [text, closing]
    omega
  have htake : L.text.take (L.head ++ textOf L.cells ++ L.indent).length = L.head ++ textOf L.cells ++ L.indent := by
    have hsplit : L.text = (L.head ++ textOf L.cells ++ L.indent) ++ '\x7d' :: L.foot := by simp [text, closing]
    rw [hsplit, List.take_left]
  refine ⟨Graph.ofTables source L.text root [⟨ms, '\x7d' :: L.foot⟩] ⟨ms, '\x7d' :: L.foot⟩
    (L.objects.map ObjectLines.object), ?_, ?_, rfl⟩
  · refine load_eq_ok_iff.mpr ⟨root, _, _, _, hdocument, rfl, objectsOf_members L hpairs source, fun t ht m hm => ?_, rfl⟩
    obtain rfl := List.mem_singleton.mp ht
    rw [List.map_map]
    exact hkeys ▸ List.mem_map_of_mem (f := fun m : Member => m.key.value) hm
  · rw [Graph.ofTables, hspansOf, hend]
    refine ⟨⟨rfl, rfl, hroot, fun id span h => ?_, fun o ho => ?_, fun s hs => ?_⟩, rfl,
      listed_foldl _, rfl, rfl, rfl⟩
    · exact hlookup id span (Dict.mem_of_lookup h)
    · obtain ⟨span, hmem⟩ := hsome o ho
      exact ⟨span, Dict.lookup_of_mem (hids ▸ L.ids_nodup) hmem⟩
    · rw [sectionsOf, htake, L.pairMarkers_eq] at hs
      obtain ⟨e, he, rfl⟩ := List.mem_map.mp hs
      obtain ⟨s₀, hs₀, rfl⟩ := List.mem_map.mp he
      obtain ⟨as, k, bs, hblocks, rfl⟩ := mem_sectionsAt hs₀
      have hk : .kind k ∈ L.blocks := by rw [hblocks]; simp
      refine ⟨as, k, bs, hblocks, rfl, fun id => ?_⟩
      simp only [List.mem_map, List.mem_filter, Bool.and_eq_true, beq_iff_eq]
      constructor
      · rintro ⟨⟨id', span⟩, ⟨hmem, hisa, -⟩, rfl⟩
        obtain ⟨o, inline, n, hat, hid, -⟩ := hlookup id' span hmem
        obtain ⟨cs, ds, hcells, -⟩ := hat
        have ho : o ∈ L.objects := mem_objects.mpr (by rw [hcells]; simp)
        rw [← hid, hfind o ho] at hisa
        exact ⟨o, mem_objects_of_isa L hk ho (Option.some.inj hisa), hid⟩
      · rintro ⟨o, ho, rfl⟩
        obtain ⟨n, hat, hbegin, hstop⟩ := L.exists_at_of_kind hblocks ho
        have ho' : o ∈ L.objects := by
          obtain ⟨cs, ds, hcells, -⟩ := hat
          exact mem_objects.mpr (by rw [hcells]; simp)
        obtain ⟨span, hmem⟩ := hsome o ho'
        obtain ⟨o', inline, n', hat', hid, rfl⟩ := hlookup o.id span hmem
        obtain rfl := eq_of_id_eq (mem_objects.mpr (by obtain ⟨cs, ds, hcells, -⟩ := hat'; rw [hcells]; simp)) ho' hid
        obtain rfl := hat.eq_of_id hat' rfl
        refine ⟨(o'.id, _), ⟨hmem, ?_, ?_⟩, rfl⟩
        · rw [hfind o' ho']
          exact congrArg some (k.own o' (mem_kind_objects.mp ho))
        · rw [Section.encloses]
          simpa using ⟨hbegin, hstop⟩

end Layout

/-- The graph has one section for every kind. -/
theorem map_isa_sections {L : Layout} {source : String} {g : Graph} (hload : Graph.load source L.text = .ok g)
    (hlaid : Laid L g) : g.sections.map Section.isa = (kindsIn L.blocks).map Kind.isa := by
  have htake : g.text.take g.tableEnd = L.head ++ textOf L.cells ++ L.indent := by
    have hsplit : L.text = (L.head ++ textOf L.cells ++ L.indent) ++ '\x7d' :: L.foot := by
      simp [Layout.text, Layout.closing]
    rw [hlaid.text, hlaid.tableEnd, hsplit, List.take_left]
  rw [sections_of_load hload, sectionsOf, htake, L.pairMarkers_eq, List.map_map, List.map_map]
  exact map_isa_sectionsAt _ _

end Xcode
end ModuleLink
