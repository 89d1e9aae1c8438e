import ModuleLink.Proofs.Xcode.LoadFaults
import ModuleLink.Proofs.Xcode.Markers
import ModuleLink.Proofs.Xcode.Rows

/-!
Where the objects of a project stand in its text.  The spans lie between the braces of the object table, no two of them
share a place, and the marker lines of a section stand around the spans of its members.
-/

namespace ModuleLink
namespace Xcode

open Plist Text

/-! ## What a span holds -/

/-- The text is the entry of the object.  It starts with a key for the id and ends with the semicolon behind the value,
and what is read from it are the fields of the object. -/
def Object.IsEntryText (o : Object) (entry : List Char) : Prop :=
  ∃ key body, key.value = o.id ∧ entry = key.text.toList ++ body ++ [';'] ∧ IsEntry entry key (.dict o.fields)

/-- The span of an object is its entry, or all the lines of an entry that shares them with blank characters only. -/
inductive Object.Spans (o : Object) (text : List Char) : Span → Prop
  | entry {front entry back : List Char} (inline : Bool) (split : text = front ++ entry ++ back)
    (isEntry : o.IsEntryText entry) : o.Spans text ⟨front.length, front.length + entry.length, [], false, inline⟩
  | lines {front indent entry tail back : List Char} (inline : Bool)
    (split : text = front ++ (indent ++ entry ++ (tail ++ ['\n'])) ++ back)
    (lineStart : front = [] ∨ front.getLast? = some '\n') (indent_isIndent : IsIndent indent)
    (tail_isIndent : IsIndent tail) (isEntry : o.IsEntryText entry) :
    o.Spans text ⟨front.length, front.length + (indent ++ entry ++ (tail ++ ['\n'])).length, indent, true, inline⟩

section Members

variable {pre cs post entry : List Char} {m : Member} {ms : List Member} {o : Object}

/-- The text in front of a place is cut where its last line starts. -/
theorem exists_lineBefore (pre left : List Char) : ∃ front, pre = front ++ lineBefore (pre ++ left) left ∧
    '\n' ∉ lineBefore (pre ++ left) left ∧ (front = [] ∨ front.getLast? = some '\n') := by
  rw [lineBefore_append]
  refine ⟨(pre.reverse.dropWhile (· != '\n')).reverse, ?_, ?_, ?_⟩
  · rw [← List.reverse_append, List.takeWhile_append_dropWhile, List.reverse_reverse]
  · rw [List.mem_reverse]
    exact fun hin => absurd (List.mem_takeWhile_imp hin) (by decide)
  · have hhead := List.head?_dropWhile_not (· != '\n') pre.reverse
    rw [List.getLast?_reverse, List.reverse_eq_nil_iff]
    cases hdrop : pre.reverse.dropWhile (· != '\n') with
    | nil => exact .inl rfl
    | cons c rest =>
      rw [hdrop] at hhead
      obtain rfl : c = '\n' := by simpa using hhead
      exact .inr rfl

/-- The entry of an object in a table gives its span. -/
theorem spans_spanOf (hopened : m.opened = entry ++ m.closed) (hentry : o.IsEntryText entry)
    (hclosed : Reads (.members ms) m.closed post) (pre : List Char) :
    o.Spans (pre ++ m.opened) (spanOf (pre ++ m.opened) m) := by
  by_cases hblank : isBlankText (lineBefore (pre ++ m.opened) m.opened) = true ∧
      isBlankText (m.closed.takeWhile (· != '\n')) = true
  · obtain ⟨front, hfront, hindent, hstart⟩ := exists_lineBefore pre m.opened
    obtain ⟨back, hback⟩ := exists_line hclosed (isBlankText_iff.mp hblank.2)
    generalize hline : lineBefore (pre ++ m.opened) m.opened = indent at hfront hindent hblank
    generalize htail : m.closed.takeWhile (· != '\n') = tail at hback hblank
    subst hfront
    have hsplit : front ++ indent ++ m.opened = front ++ (indent ++ entry ++ (tail ++ ['\n'])) ++ back := by
      rw [hopened, hback]
      simp
    have hnewline : '\n' ∉ tail := by
      rw [← htail]
      exact fun hin => absurd (List.mem_takeWhile_imp hin) (by decide)
    rw [spanOf_lines hopened hback htail hline hblank.1 hblank.2]
    exact .lines m.inline hsplit hstart ⟨hblank.1, hindent⟩ ⟨hblank.2, hnewline⟩ hentry
  · have hsplit : pre ++ m.opened = pre ++ entry ++ m.closed := by rw [hopened, List.append_assoc]
    rw [spanOf_entry hopened hblank]
    exact .entry m.inline hsplit hentry

/-- Every member of a table is an entry in its text. -/
theorem exists_entry_of_mem (h : Reads (.members ms) cs post) (hm : m ∈ ms) : ∃ front body rest,
    cs = front ++ m.opened ∧ m.opened = (m.key.text.toList ++ body ++ [';']) ++ m.closed ∧
      IsEntry (m.key.text.toList ++ body ++ [';']) m.key m.value ∧ Reads (.members rest) m.closed post := by
  induction ms generalizing cs with
  | nil => contradiction
  | cons n ms ih =>
    obtain ⟨g, body, -, rfl, hopened, hentry, hms⟩ := exists_entry h
    rcases List.mem_cons.mp hm with rfl | hm
    · exact ⟨g, body, ms, rfl, hopened, hentry, hms⟩
    · obtain ⟨front, body', rest, hclosed, hfound⟩ := ih hms hm
      refine ⟨g ++ (n.key.text.toList ++ body ++ [';']) ++ front, body', rest, ?_, hfound⟩
      rw [hopened, hclosed]
      simp only [List.append_assoc]

/-! ## Places of rows -/

theorem mem_spansFrom {rows : List Row} {n : Nat} {span : Span} (h : span ∈ spansFrom n rows) :
    n ≤ span.start ∧ span.stop ≤ n + (textOfRows rows).length := by
  induction rows generalizing n with
  | nil => contradiction
  | cons r rows ih =>
    have hlength : (textOfRows (r :: rows)).length = r.lead.length + r.lines.length + (textOfRows rows).length := by
      rw [textOfRows, List.flatMap_cons, List.length_append, Row.text, List.length_append]
      rfl
    have htext : r.text.length = r.lead.length + r.lines.length := by rw [Row.text, List.length_append]
    rcases List.mem_cons.mp h with rfl | h
    · simp only [Row.spanAt]
      omega
    · obtain ⟨hstart, hstop⟩ := ih h
      omega

theorem pairwise_spansFrom (rows : List Row) (n : Nat) :
    (spansFrom n rows).Pairwise fun span later => span.stop ≤ later.start := by
  induction rows generalizing n with
  | nil => exact .nil
  | cons r rows ih =>
    refine .cons (fun later hlater => ?_) (ih _)
    have hstart := (mem_spansFrom hlater).1
    rw [Row.text, List.length_append] at hstart
    simp only [Row.spanAt]
    omega

/-- The spans of the members of a table follow each other up to its brace. -/
theorem spans_of_reads (h : Reads (.members ms) cs post) (hpre : EndsSolid pre) :
    (ms.Pairwise fun m later => (spanOf (pre ++ cs) m).stop ≤ (spanOf (pre ++ cs) later).start) ∧
      ∀ m ∈ ms, pre.length ≤ (spanOf (pre ++ cs) m).start ∧
        (spanOf (pre ++ cs) m).stop ≤ (pre ++ cs).length - (post.length + 1) := by
  obtain ⟨rows, foot, hcs, -, -, hspans⟩ := exists_rows h hpre
  constructor
  · have hrows := pairwise_spansFrom rows pre.length
    rwa [← hspans, List.pairwise_map] at hrows
  · intro m hm
    obtain ⟨hstart, hstop⟩ := mem_spansFrom (hspans ▸ List.mem_map_of_mem hm)
    have hlength : cs.length = (textOfRows rows).length + (foot.length + (post.length + 1)) := by
      rw [hcs, List.length_append, List.length_append, List.length_cons]
    rw [List.length_append]
    omega

end Members

/-! ## The braces of the table -/

/-- Where the braces of the first object table stand.  The text is read up to the table, and the table up to its end. -/
def tableBraces? (text : List Char) : Option (Nat × Nat) := do
  let inside ← (expect '\x7b' text).toOption
  let found ← (rootMembers tableKey (depthBound text) inside).toOption
  let table ← found.1.1.find? (·.key.value == tableKey)
  let opened ← (expect '\x7b' table.body).toOption
  let inner ← (members (depthBound text) opened).toOption
  some (text.length - (opened.length + 1), text.length - (inner.2.length + 1))

section Braces

variable {text cs rest : List Char} {ms : List Member} {tables : List ObjectTable} {table : ObjectTable}
  {root : Dict Value}

/-- The one table of a root dictionary is the value of the first member with its key. -/
theorem exists_opened_of_reads (h : ReadsRoot tableKey ms tables cs rest) (htables : tables = [table]) :
    ∃ m opened foot, ms.find? (·.key.value == tableKey) = some m ∧ expect '\x7b' m.body = .ok opened ∧
      '\x7b' :: opened <:+ cs ∧ table.close = '\x7d' :: foot ∧ Reads (.members table.members) opened foot := by
  induction h with
  | close => contradiction
  | @table _ start left body opened after closed _ key inner ms tables hskip _ _ hkey hequals hname hopen hinner =>
    obtain ⟨rfl, -⟩ := List.cons.inj htables
    exact ⟨_, opened, after, List.find?_cons_of_pos (beq_iff_eq.mpr hname), hopen,
      (expect_suffix hopen).trans (body_suffix hskip hkey hequals), rfl, hinner⟩
  | member hskip _ _ hkey hequals hname hvalue hend _ ih =>
    obtain ⟨m, opened, foot, hfind, hopen, hsuffix, hclose, hreads⟩ := ih htables
    have hclosed := ((rest_suffix_of_expect hend).trans hvalue.suffix).trans (body_suffix hskip hkey hequals)
    refine ⟨m, opened, foot, ?_, hopen, hsuffix.trans hclosed, hclose, hreads⟩
    rw [List.find?_cons_of_neg (by simpa using hname), hfind]

/-- The members of the one table of a document stand between its braces. -/
theorem exists_braces (h : document tableKey text = .ok (root, [table])) :
    ∃ front opened foot, text = front ++ '\x7b' :: opened ∧ table.close = '\x7d' :: foot ∧
      Reads (.members table.members) opened foot ∧
      tableBraces? text = some (front.length, text.length - table.close.length) := by
  rw [document] at h
  obtain ⟨inside, hinside, h⟩ := ok_of_bind h
  obtain ⟨⟨⟨ms, tables⟩, left⟩, hroot, h⟩ := ok_of_bind h
  obtain ⟨end_, -, h⟩ := ok_of_bind h
  split at h
  · contradiction
  split at h
  · contradiction
  obtain ⟨-, rfl⟩ := Prod.mk.inj (Except.ok.inj h)
  obtain ⟨m, opened, foot, hfind, hopen, hsuffix, hclose, hreads⟩ :=
    exists_opened_of_reads (readsRoot_of_rootMembers hroot) rfl
  obtain ⟨front, rfl⟩ := hsuffix.trans (rest_suffix_of_expect hinside)
  have hbound : Found.bound opened (.members table.members) ≤ depthBound (front ++ '\x7b' :: opened) := by
    simp only [Found.bound, depthBound, List.length_append, List.length_cons]
    omega
  have hinner : members (depthBound (front ++ '\x7b' :: opened)) opened = .ok (table.members, foot) :=
    hreads.isReadBy _ hbound
  refine ⟨front, opened, foot, rfl, hclose, hreads, ?_⟩
  rw [tableBraces?, hinside]
  simp only [Except.toOption, hroot, hfind, hopen, hinner, hclose, Option.bind_eq_bind, Option.bind_some]
  rw [List.length_cons]
  congr 2
  rw [List.length_append, List.length_cons]
  omega

end Braces

/-! ## Marker lines -/

/-- From the one place to the other goes a line that starts with a marker. -/
structure IsMarked (text : List Char) (opens : Bool) (isa : String) (start stop : Nat) : Prop where
  starts : markerText opens isa <+: text.drop start
  nonempty : start < stop
  stop_le : stop ≤ text.length

section Markers

variable {text cs line : List Char} {opens : Bool} {isa : String} {offset n : Nat} {m : Marker}

theorem exists_of_mem_linesFrom (h : (n, line) ∈ linesFrom offset cs) :
    ∃ front rest, cs = front ++ (line ++ rest) ∧ n = offset + front.length := by
  fun_induction linesFrom offset cs with
  | case1 => contradiction
  | case2 offset c cs first ih =>
    rcases List.mem_cons.mp h with heq | h
    · obtain ⟨rfl, rfl⟩ := Prod.mk.inj heq
      exact ⟨[], (c :: cs).dropWhile (· != '\n'), List.takeWhile_append_dropWhile.symm, rfl⟩
    · have hlength : first.length + 1 ≤ (c :: cs).length := by
        by_contra hlt
        have hnil : (c :: cs).drop (first.length + 1) = [] := List.drop_eq_nil_of_le (by omega)
        rw [hnil, linesFrom.eq_def] at h
        contradiction
      obtain ⟨front, rest, hrest, rfl⟩ := ih h
      refine ⟨(c :: cs).take (first.length + 1) ++ front, rest, ?_, ?_⟩
      · rw [List.append_assoc, ← hrest, List.take_append_drop]
      · rw [List.length_append, List.length_take_of_le hlength]
        omega

/-- A marker line starts with its marker. -/
theorem prefix_of_markerOf? (h : markerOf? line = some (opens, isa)) : markerText opens isa <+: line := by
  -- Behind either opening there is the name of the kind and the end of the marker.
  have hnamed {rest : List Char} {opens' : Bool}
      (h : (if !(rest.takeWhile isWord).isEmpty && startsWith " section */".toList (rest.dropWhile isWord) then
        some (opens', String.ofList (rest.takeWhile isWord)) else none) = some (opens, isa)) :
      opens' = opens ∧ ∃ back, rest = isa.toList ++ " section */".toList ++ back := by
    split at h
    next hmarker =>
      rw [Bool.and_eq_true] at hmarker
      obtain ⟨rfl, rfl⟩ := Prod.mk.inj (Option.some.inj h)
      obtain ⟨back, hback⟩ := startsWith_iff.mp hmarker.2
      refine ⟨rfl, back, ?_⟩
      rw [String.toList_ofList, List.append_assoc, ← hback, List.takeWhile_append_dropWhile]
    · contradiction
  rw [markerOf?] at h
  split at h
  next rest hafter =>
    obtain ⟨rfl, back, rfl⟩ := hnamed h
    exact ⟨back, by rw [after?_eq_some_iff.mp hafter, markerText, if_pos rfl]; simp only [List.append_assoc]⟩
  · obtain ⟨rest, hafter, h⟩ := Option.bind_eq_some_iff.mp h
    obtain ⟨rfl, back, rfl⟩ := hnamed h
    exact ⟨back, by rw [after?_eq_some_iff.mp hafter, markerText, if_neg (by simp)]; simp only [List.append_assoc]⟩

theorem isMarked_of_mem_markers (h : m ∈ markers text) : IsMarked text m.opens m.isa m.start m.stop := by
  obtain ⟨⟨start, line⟩, hline, hmarker⟩ := List.mem_filterMap.mp h
  obtain ⟨⟨opens, isa⟩, hnamed, rfl⟩ := Option.map_eq_some_iff.mp hmarker
  obtain ⟨front, rest, rfl, rfl⟩ := exists_of_mem_linesFrom hline
  obtain ⟨back, rfl⟩ := prefix_of_markerOf? hnamed
  have hpos : 0 < (markerText opens isa).length := by
    rw [markerText, List.length_append]
    exact Nat.add_pos_left (by cases opens <;> decide) _
  refine ⟨?_, ?_, Nat.min_le_right ..⟩
  · show markerText opens isa <+: List.drop (0 + front.length) _
    rw [Nat.zero_add, List.drop_left, List.append_assoc]
    exact List.prefix_append _ _
  · show 0 + front.length < min (0 + front.length + (markerText opens isa ++ back).length + 1) _
    simp only [List.length_append]
    omega

/-- A section made of two markers of its kind, which both satisfy `P`. -/
def Section.IsPaired (P : Marker → Prop) (s : Section) : Prop :=
  ∃ b e : Marker, P b ∧ P e ∧ b.opens = true ∧ e.opens = false ∧ b.isa = s.isa ∧ e.isa = s.isa ∧
    s.beginStart = b.start ∧ s.beginStop = b.stop ∧ s.endStart = e.start ∧ s.endStop = e.stop

/-- What is known of all markers is known of those that pair up to a section. -/
theorem isPaired_of_mem_pairMarkers {P : Marker → Prop} {ms : List Marker} {open_ : List (String × Marker)}
    {done : List (String × Section)} (hms : ∀ m ∈ ms, P m)
    (hopen : ∀ e ∈ open_, P e.2 ∧ e.2.opens = true ∧ e.2.isa = e.1) (hdone : ∀ e ∈ done, e.2.IsPaired P) :
    ∀ e ∈ pairMarkers ms open_ done, e.2.IsPaired P := by
  induction ms generalizing open_ done with
  | nil => exact hdone
  | cons m ms ih =>
    obtain ⟨hm, hms⟩ := List.forall_mem_cons.mp hms
    rw [pairMarkers]
    split
    next hopens => exact ih hms (List.forall_mem_cons.mpr ⟨⟨hm, hopens, rfl⟩, hopen⟩) hdone
    next hopens =>
      split
      next b hb =>
        obtain ⟨hbegin, hbopens, hbisa⟩ := hopen _ (Dict.mem_of_lookup hb)
        refine ih hms (fun e he => hopen e (List.mem_of_mem_filter he)) fun e he => ?_
        rcases Dict.mem_assign he with rfl | he
        · exact ⟨b, m, hbegin, hm, hbopens, by simpa using hopens, hbisa, rfl, rfl, rfl, rfl, rfl⟩
        · exact hdone e he
      · exact ih hms hopen hdone

end Markers

section Sections

variable {text : List Char} {tableEnd : Nat} {objects : List Object} {spans : List (String × Span)} {s : Section}

/-- The ranges of a section are marker lines in front of the end of the table. -/
theorem isMarked_of_mem_sectionsOf (h : s ∈ sectionsOf text tableEnd objects spans) :
    IsMarked (text.take tableEnd) true s.isa s.beginStart s.beginStop ∧
      IsMarked (text.take tableEnd) false s.isa s.endStart s.endStop := by
  obtain ⟨⟨isa, t⟩, ht, rfl⟩ := List.mem_map.mp h
  obtain ⟨b, e, hb, he, hbopens, heopens, hbisa, heisa, h₁, h₂, h₃, h₄⟩ :=
    isPaired_of_mem_pairMarkers (fun m hm => isMarked_of_mem_markers hm) (by simp) (by simp) _ ht
  simp only at hbisa heisa h₁ h₂ h₃ h₄
  rw [h₁, h₂, h₃, h₄]
  exact ⟨hbopens ▸ hbisa ▸ hb, heopens ▸ heisa ▸ he⟩

/-- A member of a section has its span between the two ranges. -/
theorem exists_span_of_member (h : s ∈ sectionsOf text tableEnd objects spans) {id : String} (hid : id ∈ s.members) :
    ∃ span, (id, span) ∈ spans ∧ s.beginStop ≤ span.start ∧ span.stop ≤ s.endStart := by
  obtain ⟨⟨isa, t⟩, -, rfl⟩ := List.mem_map.mp h
  obtain ⟨⟨id, span⟩, hspan, rfl⟩ := List.mem_map.mp hid
  obtain ⟨hspan, henclosed⟩ := List.mem_filter.mp hspan
  rw [Bool.and_eq_true, Section.encloses, Bool.and_eq_true, decide_eq_true_eq, decide_eq_true_eq] at henclosed
  exact ⟨span, hspan, henclosed.2⟩

end Sections

/-! ## The spans of a graph -/

section Load

variable {source : String} {text : List Char} {root : Dict Value} {table : ObjectTable} {os : List Object} {o : Object}
  {g : Graph}

/-- Of the members with one key the last gives the span. -/
theorem lookup_spansOf_singleton (text : List Char) (table : ObjectTable) (id : String) :
    (spansOf text [table]).lookup id = (table.members.reverse.find? (·.key.value == id)).map (spanOf text) := by
  rw [spansOf, List.flatMap_singleton, Dict.lookup_foldl_assign]

theorem map_fst_spansOf_singleton (text : List Char) (table : ObjectTable) :
    (spansOf text [table]).map (·.1) = (Dict.ofMembers table.members).keys := by
  rw [spansOf, List.flatMap_singleton, Dict.keys, Dict.entries_ofMembers]
  exact Dict.map_fst_foldl_assign ..

theorem nodup_spansOf_singleton (text : List Char) (table : ObjectTable) :
    ((spansOf text [table]).map (·.1)).Nodup := by
  rw [map_fst_spansOf_singleton]
  exact Dict.keys_ofMembers_nodup _

theorem exists_member_of_span {e : String × Span} (he : e ∈ spansOf text [table]) :
    ∃ m ∈ table.members, m.key.value = e.1 ∧ spanOf text m = e.2 := by
  have hlookup := Dict.lookup_of_mem (nodup_spansOf_singleton text table) he
  rw [lookup_spansOf_singleton, Option.map_eq_some_iff] at hlookup
  obtain ⟨m, hm, hspan⟩ := hlookup
  exact ⟨m, List.mem_reverse.mp (List.mem_of_find?_eq_some hm), by simpa using List.find?_some hm, hspan⟩

/-- The span of an object is that of the member which gives it its fields. -/
theorem exists_member_of_object (hos : objectsOf source (Dict.ofMembers table.members) = .ok os) (ho : o ∈ os)
    (text : List Char) : ∃ m ∈ table.members, m.key.value = o.id ∧ m.value = .dict o.fields ∧
      (spansOf text [table]).lookup o.id = some (spanOf text m) := by
  have hentry : (o.id, Value.dict o.fields) ∈ (Dict.ofMembers table.members).entries := by
    obtain ⟨⟨id, v⟩, he, hobject⟩ := exists_of_forall₂ (forall₂_of_mapM hos) o ho
    cases v with
    | scalar | list => contradiction
    | dict fields =>
      obtain rfl := Except.ok.inj hobject
      exact he
  have hlookup := Dict.lookup_of_mem (Dict.keys_ofMembers_nodup table.members) hentry
  rw [Dict.entries_ofMembers, Dict.lookup_foldl_assign, Option.map_eq_some_iff] at hlookup
  obtain ⟨m, hm, hvalue⟩ := hlookup
  refine ⟨m, List.mem_reverse.mp (List.mem_of_find?_eq_some hm), by simpa using List.find?_some hm, hvalue, ?_⟩
  rw [lookup_spansOf_singleton, hm]
  rfl

/-- Members that follow each other in a text have spans that are apart. -/
theorem pairwise_spansOf (h : table.members.Pairwise fun m later => (spanOf text m).stop ≤ (spanOf text later).start) :
    (spansOf text [table]).Pairwise fun e e' => e.2.stop ≤ e'.2.start ∨ e'.2.stop ≤ e.2.start := by
  refine (List.pairwise_map.mp (nodup_spansOf_singleton text table)).imp_of_mem fun {e e'} he he' hne => ?_
  obtain ⟨m, hm, hkey, hspan⟩ := exists_member_of_span he
  obtain ⟨m', hm', hkey', hspan'⟩ := exists_member_of_span he'
  have hmembers : m ≠ m' := fun heq => hne (by rw [← hkey, ← hkey', heq])
  rw [← hspan, ← hspan']
  have hsymm : Std.Symm fun m m' : Member => (spanOf text m).stop ≤ (spanOf text m').start ∨
      (spanOf text m').stop ≤ (spanOf text m).start := ⟨fun _ _ => Or.symm⟩
  have hapart : table.members.Pairwise fun m m' => (spanOf text m).stop ≤ (spanOf text m').start ∨
      (spanOf text m').stop ≤ (spanOf text m).start := h.imp Or.inl
  exact hapart.forall hm hm' hmembers

/-- In a project with one object table every object has a span between the braces of the table.  The spans of different
objects are apart, and the two marker lines of a section stand around the spans of its members. -/
theorem spans_apart_of_load (hload : Graph.load source text = .ok g)
    (hdocument : document tableKey text = .ok (root, [table])) :
    ∃ opening closing, tableBraces? text = some (opening, closing) ∧
      text[opening]? = some '\x7b' ∧ text[closing]? = some '\x7d' ∧ g.spans.map (·.1) = g.ids ∧
      (g.spans.Pairwise fun e e' => e.2.stop ≤ e'.2.start ∨ e'.2.stop ≤ e.2.start) ∧
      (∀ o ∈ g.objects, ∃ span, g.spans.lookup o.id = some span ∧ o.Spans text span ∧
        opening < span.start ∧ span.stop ≤ closing) ∧
      ∀ s ∈ g.sections, IsMarked (text.take closing) true s.isa s.beginStart s.beginStop ∧
        IsMarked (text.take closing) false s.isa s.endStart s.endStop ∧
        ∀ id ∈ s.members, ∃ span, g.spans.lookup id = some span ∧
          s.beginStop ≤ span.start ∧ span.stop ≤ s.endStart := by
  obtain ⟨root', tables, last, os, hdocument', hlast, hos, -, rfl⟩ := load_eq_ok_iff.mp hload
  obtain ⟨-, rfl⟩ := Prod.mk.inj (Except.ok.inj (hdocument.symm.trans hdocument'))
  obtain rfl := Option.some.inj hlast
  obtain ⟨front, opened, foot, htext, hclose, hreads, hbraces⟩ := exists_braces hdocument
  have hclosing : text.length - table.close.length = text.length - (foot.length + 1) := by
    rw [hclose, List.length_cons]
  have hsplit : (front ++ ['\x7b']) ++ opened = text := by simp [htext]
  obtain ⟨hfollow, hinside⟩ := spans_of_reads hreads (endsSolid_brace front)
  rw [hsplit] at hfollow hinside
  rw [← hclosing] at hinside
  refine ⟨front.length, text.length - table.close.length, hbraces, ?_, ?_,
    (map_fst_spansOf_singleton text table).trans (dict_of_objectsOf hos).1.symm, pairwise_spansOf hfollow,
    fun o ho => ?_, fun s hs => ?_⟩
  · rw [htext, List.getElem?_append_right (Nat.le_refl _), Nat.sub_self]
    rfl
  · obtain ⟨before, hbefore⟩ : '\x7d' :: foot <:+ text :=
      (hreads.close_suffix ⟨_, rfl⟩).trans (hsplit ▸ List.suffix_append _ _)
    have hlength : text.length - table.close.length = before.length := by
      rw [hclose, ← hbefore, List.length_append, Nat.add_sub_cancel]
    rw [hlength, ← hbefore, List.getElem?_append_right (Nat.le_refl _), Nat.sub_self]
    rfl
  · obtain ⟨m, hm, hid, hvalue, hlookup⟩ := exists_member_of_object hos ho text
    obtain ⟨before, body, rest, hopened, hentry, hisEntry, hrest⟩ := exists_entry_of_mem hreads hm
    have hspans := spans_spanOf hentry ⟨m.key, body, hid, rfl, hvalue ▸ hisEntry⟩ hrest ((front ++ ['\x7b']) ++ before)
    rw [List.append_assoc, ← hopened, hsplit] at hspans
    obtain ⟨hstart, hstop⟩ := hinside m hm
    rw [List.length_append, List.length_singleton] at hstart
    exact ⟨spanOf text m, hlookup, hspans, hstart, hstop⟩
  · obtain ⟨hbegin, hend⟩ := isMarked_of_mem_sectionsOf hs
    refine ⟨hbegin, hend, fun id hid => ?_⟩
    obtain ⟨span, hspan, hencloses⟩ := exists_span_of_member hs hid
    exact ⟨span, Dict.lookup_of_mem (nodup_spansOf_singleton text table) hspan, hencloses⟩

/-- A project with a section of one object, and two objects that share a line. -/
def sharedLine : List Char :=
  "\x7bobjects=\x7b\n/* Begin Kind section */\n\tA=\x7bisa=Kind;\x7d; \n/* End Kind section */\n".toList ++
  "\tB=\x7b\x7d; C=\x7b\x7d;\n\x7d;\x7d".toList

theorem spans_apart_of_load_sharedLine : ∃ g root table, Graph.load "project" sharedLine = .ok g ∧
    document tableKey sharedLine = .ok (root, [table]) ∧ g.ids = ["A", "B", "C"] ∧
      g.sections.map Section.members = [["A"]] ∧
      (g.spans.Pairwise fun e e' => e.2.stop ≤ e'.2.start ∨ e'.2.stop ≤ e.2.start) ∧
      ∀ o ∈ g.objects, ∃ span, g.spans.lookup o.id = some span ∧ o.Spans sharedLine span ∧
        9 < span.start ∧ span.stop ≤ 89 := by
  have hstate : (Graph.load "project" sharedLine).toOption.any (fun g => g.ids == ["A", "B", "C"] &&
      g.sections.map Section.members == [["A"]]) = true := by decide +kernel
  have htables : (document tableKey sharedLine).toOption.any (fun d => d.2.length == 1) = true := by decide +kernel
  have hplaces : tableBraces? sharedLine = some (9, 89) := by decide +kernel
  cases hload : Graph.load "project" sharedLine with
  | error f =>
    rw [hload] at hstate
    contradiction
  | ok g =>
    cases hdocument : document tableKey sharedLine with
    | error stop =>
      rw [hdocument] at htables
      contradiction
    | ok d =>
      obtain ⟨root, tables⟩ := d
      simp only [hload, hdocument, Except.toOption, Option.any_some, Bool.and_eq_true, beq_iff_eq] at hstate htables
      obtain ⟨table, rfl⟩ := List.length_eq_one_iff.mp htables
      obtain ⟨opening, closing, hbraces, -, -, -, hapart, hspans, -⟩ := spans_apart_of_load hload hdocument
      obtain ⟨rfl, rfl⟩ := Prod.mk.inj (Option.some.inj (hplaces.symm.trans hbraces))
      exact ⟨g, root, table, rfl, rfl, hstate.1, hstate.2, hapart, hspans⟩

end Load

end Xcode
end ModuleLink
