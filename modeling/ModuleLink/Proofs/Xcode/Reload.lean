import Mathlib
import ModuleLink.Proofs.Xcode.Serialised

/-!
A graph that was changed and written is read back as it is.
-/

namespace ModuleLink
namespace Xcode

open Plist Text

/-! ## Reading members as objects -/

section Members

variable {source : String} {text close : List Char} {root : Dict Value} {ms : List Member}

/-- Entries that are all dictionaries are objects. -/
theorem exists_objectsOf {d : Dict Value} (h : ∀ e ∈ d.entries, ∃ fields, e.2 = .dict fields) :
    ∃ os, objectsOf source d = .ok os ∧ os.map (·.id) = d.keys ∧
      ∀ o ∈ os, (o.id, .dict o.fields) ∈ d.entries ∧ o.comment = (d.spelling o.id).comment := by
  rw [objectsOf, Dict.keys]
  generalize hspelling : d.spelling = spelling
  generalize d.entries = es at h
  induction es with
  | nil => exact ⟨[], rfl, rfl, by simp⟩
  | cons e es ih =>
    obtain ⟨os, hos, hids, hobjects⟩ := ih fun x hx => h x (by simp [hx])
    obtain ⟨id, v⟩ := e
    obtain ⟨fields, rfl⟩ := h (id, v) (by simp)
    refine ⟨⟨id, fields, (spelling id).comment⟩ :: os, ?_, by rw [List.map_cons, List.map_cons, hids], ?_⟩
    · rw [List.mapM_cons, bind_of_ok rfl, bind_of_ok hos]
      rfl
    · intro o ho
      rcases List.mem_cons.mp ho with rfl | ho
      · exact ⟨by simp, rfl⟩
      · exact ⟨by simp [(hobjects o ho).1], (hobjects o ho).2⟩

/-- What was read has just been read. -/
structure Fresh (g : Graph) : Prop where
  nodup : g.ids.Nodup
  index : ∀ k, listed g.index k = idsOfKind g.objects k
  unmodified : g.isModified = false

/-- A document with one table of dictionaries is read, and its members are the objects. -/
theorem load_of_document (source : String) (h : document tableKey text = .ok (root, [⟨ms, close⟩]))
    (hms : ∀ m ∈ ms, ∃ fields, m.value = .dict fields) :
    ∃ g, Graph.load source text = .ok g ∧ g.source = source ∧ g.text = text ∧ g.root = root ∧ Fresh g ∧
      (∀ o ∈ g.objects, (∃ m ∈ ms, m.key.value = o.id ∧ m.value = .dict o.fields) ∧
        ∃ m ∈ ms, m.key.value = o.id ∧ o.comment = m.key.comment) ∧
      ∀ m ∈ ms, m.key.value ∈ g.ids := by
  have hentries : ∀ e ∈ (Dict.ofMembers ms).entries, ∃ fields, e.2 = .dict fields := by
    intro e he
    obtain ⟨m, hm, -, hvalue⟩ := Dict.mem_ofMembers (k := e.1) (v := e.2) he
    rw [← hvalue]
    exact hms m hm
  obtain ⟨os, hos, hids, hobjects⟩ := exists_objectsOf hentries
  have hnodup : (os.map (·.id)).Nodup := hids ▸ Dict.keys_ofMembers_nodup ms
  have hlisted : ∀ m ∈ ms, m.key.value ∈ os.map (·.id) := fun m hm =>
    hids ▸ Dict.mem_keys_ofMembers.mpr ⟨m, hm, rfl⟩
  refine ⟨Graph.ofTables source text root [⟨ms, close⟩] ⟨ms, close⟩ os,
    load_eq_ok_iff.mpr ⟨root, _, _, os, h, rfl, hos, fun t ht => ?_, rfl⟩, rfl, rfl, rfl,
    ⟨hnodup, listed_foldl os, rfl⟩, fun o ho => ?_, hlisted⟩
  · obtain rfl := List.mem_singleton.mp ht
    exact hlisted
  · obtain ⟨hin, hcomment⟩ := hobjects o ho
    obtain ⟨m, hm, hkey, hvalue⟩ := Dict.mem_ofMembers hin
    obtain ⟨m', hm', hkey', hspelling⟩ := Dict.spelling_ofMembers ⟨m, hm, hkey⟩
    exact ⟨⟨m, hm, hkey, hvalue⟩, m', hm', hkey', hcomment.trans (congrArg Scalar.comment hspelling)⟩

end Members

/-! ## Writing -/

section Written

variable {L : Layout} {g₀ g : Graph} {t : List Char}

theorem ObjectLines.isProper (l : ObjectLines) : l.object.IsProper where
  id := by
    obtain ⟨hkey, -⟩ := l.key_isWritten
    refine ⟨?_, ?_⟩
    · rw [show l.object.id = l.key.text from l.key_text.symm]
      exact hkey.token
    · rw [show l.object.id = l.key.text from l.key_text.symm]
      exact l.unquoted
  comment := l.key_isWritten.1.comment
  fields := l.key_isWritten.2

/-- A graph that has just been read from a text in Xcode layout can be changed. -/
theorem Loaded.follows (h : Loaded L g) : Follows g g := by
  refine follows_refl ?_ h.index (fun o ho => ?_) h.added h.removed
  · rw [Graph.ids, h.objects, List.map_map]
    exact L.ids_nodup
  · rw [h.objects] at ho
    obtain ⟨l, -, rfl⟩ := List.mem_map.mp ho
    exact l.isProper

/-- A graph that was not changed is written without edits. -/
theorem edits_of_unmodified (h : g.isModified = false) : g.edits = [] := by
  simp only [Graph.isModified, Bool.not_eq_false', Bool.and_eq_true, List.isEmpty_iff] at h
  obtain ⟨⟨hadded, hremoved⟩, htouched⟩ := h
  refine List.eq_nil_iff_forall_not_mem.mpr fun e he => ?_
  rcases mem_edits.mp he with ⟨s, -, hdropped, -⟩ | he | he | ⟨group, hgroup, -⟩
  · simp only [Graph.isDropped, hremoved, Bool.and_eq_true, Bool.not_eq_true', List.isEmpty_eq_false_iff,
      List.all_eq_true] at hdropped
    obtain ⟨id, hid⟩ := List.exists_mem_of_ne_nil _ hdropped.1.1
    exact absurd (hdropped.1.2 id hid) (by simp)
  · obtain ⟨id, hid, -⟩ := mem_removalEdits he
    rw [hremoved] at hid
    contradiction
  · obtain ⟨id, hid, -⟩ := mem_changeEdits he
    rw [htouched] at hid
    contradiction
  · rw [Graph.addedObjects, hadded] at hgroup
    contradiction

/-- What is written is what the edits make of the text, also when there are none. -/
theorem applyEdits_of_serialise (h : g.serialise = .ok t) : applyEdits g.text g.edits = .ok t := by
  rw [Graph.serialise] at h
  split at h
  next hunmodified =>
    obtain rfl := Except.ok.inj h
    rw [edits_of_unmodified (by simpa using hunmodified), applyEdits, List.mergeSort_nil]
    rfl
  · split at h
    next text htext => rw [htext, Except.ok.inj h]
    · contradiction

/-- Where no object was added or removed, each edit writes an object that was touched. -/
theorem edits_eq_changeEdits (hadded : g.added = []) (hremoved : g.removed = []) : g.edits = g.changeEdits := by
  have hdropped : g.sections.filter g.isDropped = [] := by
    refine List.filter_eq_nil_iff.mpr fun s _ hdropped => ?_
    simp only [Graph.isDropped, hremoved, Bool.and_eq_true, Bool.not_eq_true', List.isEmpty_eq_false_iff,
      List.all_eq_true] at hdropped
    obtain ⟨id, hid⟩ := List.exists_mem_of_ne_nil _ hdropped.1.1
    exact absurd (hdropped.1.2 id hid) (by simp)
  have hnew : g.addedObjects = [] := by rw [Graph.addedObjects, hadded]; rfl
  rw [Graph.edits, hdropped, Graph.removalEdits, hremoved, hnew, List.mergeSort_nil]
  exact List.append_nil _

/-- A graph is written if its edits can be made, also when there are none. -/
theorem serialise_of_applyEdits (h : applyEdits g.text g.edits = .ok t) : g.serialise = .ok t := by
  rw [Graph.serialise]
  split
  next hunmodified =>
    rw [edits_of_unmodified (by simpa using hunmodified), applyEdits, List.mergeSort_nil] at h
    rw [Except.ok.inj h]
  · rw [h]

/-- One edit overlaps no other: a graph of which one object was touched is always written. -/
theorem exists_serialise_of_touched {id : String} (hadded : g.added = []) (hremoved : g.removed = [])
    (htouched : g.touched = [id]) : ∃ t, g.serialise = .ok t := by
  have hedits : g.edits = g.changeEdits := edits_eq_changeEdits hadded hremoved
  have hshort : g.changeEdits.length ≤ 1 := by
    rw [Graph.changeEdits, htouched]
    exact List.length_filterMap_le _ _
  have happly : ∃ t, applyEdits g.text g.edits = .ok t := by
    rw [applyEdits, hedits]
    rcases hchange : g.changeEdits with _ | ⟨e, _ | ⟨e', es⟩⟩
    · exact ⟨g.text, by rw [List.mergeSort_nil]; rfl⟩
    · rw [List.mergeSort_singleton, splice, if_neg (Nat.not_lt_zero _)]
      exact ⟨_, rfl⟩
    · rw [hchange] at hshort
      exact absurd hshort (by simp)
  obtain ⟨t, ht⟩ := happly
  exact ⟨t, serialise_of_applyEdits ht⟩

/-- The graph that is read holds the objects of the other one, each as it is read back, and no others. -/
structure Matches (g g' : Graph) : Prop where
  ids : g'.ids.Perm g.ids
  get? : ∀ id, g'.get? id = (g.get? id).map Object.tidy
  index : ∀ k, listed g'.index k = idsOfKind g'.objects k
  root : g'.root.keys = g.root.keys ∧ ∀ k, k ≠ tableKey → g'.root.get? k = g.root.get? k

theorem keys_get?_of_entries {d d' : Dict Value} {v : Value}
    (h : d'.entries = d.entries.map fun e => (e.1, if e.1 = tableKey then v else e.2)) :
    d'.keys = d.keys ∧ ∀ k, k ≠ tableKey → d'.get? k = d.get? k := by
  rw [Dict.keys, Dict.keys, h, List.map_map]
  refine ⟨rfl, fun k hk => ?_⟩
  rw [Dict.get?, Dict.get?, h]
  generalize d.entries = es
  induction es with
  | nil => rfl
  | cons e es ih =>
    obtain ⟨k', w⟩ := e
    rw [List.map_cons]
    by_cases hkk : k = k'
    · subst hkk
      rw [Entries.lookup_cons_self, Entries.lookup_cons_self, if_neg hk]
    · rw [Entries.lookup_cons_of_ne hkk, Entries.lookup_cons_of_ne hkk, ih]

/-- However the graph of a text in Xcode layout was changed, what it is written as is read back as the graph is. -/
theorem Follows.load_serialise (h : Follows g₀ g) (hread : Loaded L g₀) (ht : g.serialise = .ok t) (source : String) :
    ∃ g', Graph.load source t = .ok g' ∧ Matches g g' ∧ g'.serialise = .ok t ∧
      ∀ l ∈ L.objects, l.id ∉ g.removed → l.id ∉ g.touched → l.text <:+: t := by
  obtain ⟨table, ks, rfl, hks, hmem, hkept⟩ := h.exists_pairs hread.toLaid hread.objects (applyEdits_of_serialise ht)
  obtain ⟨root, ms, hdocument, hms, w, hentries⟩ := L.document_of_carries hks
  -- The members are the objects of the graph.
  have hmember : ∀ m ∈ ms, ∃ o ∈ g.objects, m.key = ⟨o.id, o.comment⟩ ∧ m.key.value = o.id ∧
      m.value = .dict o.tidy.fields := by
    intro m hm
    obtain ⟨o, ho, hpair⟩ := (hmem m.pair).mp (hms ▸ List.mem_map_of_mem hm)
    obtain ⟨hkey, hvalue⟩ := Prod.mk.inj hpair
    exact ⟨o, ho, hkey, by rw [hkey]; exact (h.proper o ho).id.value o.comment, hvalue⟩
  have hobject : ∀ o ∈ g.objects, ∃ m ∈ ms, m.key.value = o.id := by
    intro o ho
    have hin : o.tidy.pair ∈ ms.map Member.pair := hms ▸ (hmem o.tidy.pair).mpr ⟨o, ho, rfl⟩
    obtain ⟨m, hm, hpair⟩ := List.mem_map.mp hin
    refine ⟨m, hm, ?_⟩
    rw [(Prod.mk.inj hpair).1]
    exact (h.proper o ho).id.value o.comment
  obtain ⟨g', hload, -, htext', hroot, hfresh, hobjects, hids⟩ := load_of_document source hdocument fun m hm => by
    obtain ⟨o, -, -, -, hvalue⟩ := hmember m hm
    exact ⟨_, hvalue⟩
  have hsame : ∀ o' ∈ g'.objects, ∃ o ∈ g.objects, o' = o.tidy := by
    intro o' ho'
    obtain ⟨⟨m, hm, hkey, hvalue⟩, m', hm', hkey', hcomment⟩ := hobjects o' ho'
    obtain ⟨o, ho, -, hid, hfields⟩ := hmember m hm
    obtain ⟨p, hp, hspelled, hpid, -⟩ := hmember m' hm'
    obtain rfl := List.inj_on_of_nodup_map h.nodup hp ho
      ((hpid.symm.trans hkey').trans (hkey.symm.trans hid))
    refine ⟨p, hp, ?_⟩
    obtain ⟨id, fields, comment⟩ := o'
    have hfields' : fields = p.tidy.fields := Value.dict.inj (hvalue.symm.trans hfields)
    have hcomment' : comment = p.comment := hcomment.trans (congrArg Scalar.comment hspelled)
    have hid' : id = p.id := hkey.symm.trans hid
    rw [hfields', hcomment', hid']
    rfl
  have hback : ∀ id, id ∈ g'.ids ↔ id ∈ g.ids := by
    intro id
    constructor
    · intro hid
      obtain ⟨o', ho', rfl⟩ := List.mem_map.mp hid
      obtain ⟨o, ho, rfl⟩ := hsame o' ho'
      show o.id ∈ g.ids
      exact List.mem_map_of_mem ho
    · intro hid
      obtain ⟨o, ho, rfl⟩ := List.mem_map.mp hid
      obtain ⟨m, hm, hkey⟩ := hobject o ho
      exact hkey ▸ hids m hm
  refine ⟨g', hload, ⟨(List.perm_ext_iff_of_nodup hfresh.nodup h.nodup).mpr hback, fun id => ?_, hfresh.index, ?_⟩, ?_,
    fun l hl hremoved htouched => ?_⟩
  · cases hget : g'.get? id with
    | none =>
      rw [Graph.get?_eq_none_iff, hback, ← Graph.get?_eq_none_iff] at hget
      rw [hget]
      rfl
    | some o' =>
      obtain ⟨ho', rfl⟩ := Graph.get?_mem hget
      obtain ⟨o, ho, rfl⟩ := hsame o' ho'
      rw [show (o.tidy).id = o.id from rfl, Graph.get?_of_mem h.nodup ho]
      rfl
  · obtain ⟨-, v, hentries₀⟩ := (h.laid hread.toLaid).root
    obtain ⟨hkeys, hget⟩ := keys_get?_of_entries hentries
    obtain ⟨hkeys₀, hget₀⟩ := keys_get?_of_entries hentries₀
    rw [hroot]
    exact ⟨hkeys.trans hkeys₀.symm, fun k hk => (hget k hk).trans (hget₀ k hk).symm⟩
  · rw [Graph.serialise, hfresh.unmodified, htext']
    rfl
  · exact (hkept l hl hremoved htouched).trans ⟨L.head, L.closing, rfl⟩

end Written

/-! ## Layouts as they are written -/

/-- The lines that are written for an object. -/
def ObjectLines.ofObject (o : Object) (ho : o.IsProper) (inline : Bool) (indent : List Char) (hindent : IsIndent indent)
    (hunmarked : markers (renderObject o indent inline true) = []) : ObjectLines where
  indent := indent
  entry := renderScalar ⟨o.id, o.comment⟩ ++ " = ".toList ++
    (if inline then renderInline (.dict o.fields) else renderBlock indent (.dict o.fields)) ++ ";".toList
  tail := []
  key := ⟨o.id, o.comment⟩
  fields := o.fields.tidy
  indent_isIndent := hindent
  tail_isIndent := ⟨rfl, by simp⟩
  reads := by
    have hend : Reads (.members []) ['\x7d'] [] := .noMember (skip_of_startsSolid (startsSolid_mark (by decide) []))
    exact isEntry_renderObject ho (isBlankText_iff.mp hindent.blank) inline hend
  unquoted := ho.id.unquoted
  unmarked := by
    have htext : indent ++ (renderScalar ⟨o.id, o.comment⟩ ++ " = ".toList ++
        (if inline then renderInline (.dict o.fields) else renderBlock indent (.dict o.fields)) ++ ";".toList) ++ [] ++
        ['\n'] = renderObject o indent inline true := by
      simp only [renderObject, List.append_assoc, if_true, List.nil_append]
    rw [htext]
    exact hunmarked

/-- The root of a text whose one table is empty, given the text before and behind the closing brace of the table. -/
def emptiedRoot? (head foot : List Char) : Option (Dict Value) :=
  match document tableKey (head ++ '\x7d' :: foot) with
  | .ok (root, [⟨[], close⟩]) => if close = '\x7d' :: foot then some root else none
  | _ => none

theorem document_of_emptiedRoot? {head foot : List Char} {root : Dict Value} (h : emptiedRoot? head foot = some root) :
    document tableKey (head ++ '\x7d' :: foot) = .ok (root, [⟨[], '\x7d' :: foot⟩]) := by
  rw [emptiedRoot?] at h
  split at h
  next root' close hdocument =>
    split at h
    next hclose => rw [hdocument, hclose, Option.some.inj h]
    · contradiction
  · contradiction

/-- A group without children. -/
def plainGroup (id : String) : Object := ⟨id, ⟨[("isa", .text "PBXGroup")], []⟩, none⟩

theorem plainGroup_isProper {id : String} (h : IsPlain id) : (plainGroup id).IsProper where
  id := h
  comment := by simp [plainGroup]
  fields := by
    refine writable_plain (by simp) (fun e he => ?_) fun e he => ?_
    · obtain rfl := List.mem_singleton.mp he
      exact isQuotable_isa
    · obtain rfl := List.mem_singleton.mp he
      exact writable_text (isQuotable_of_word (List.all_eq_true.mp (by decide)))

def firstGroup : ObjectLines :=
  .ofObject (plainGroup "A1") (plainGroup_isProper ⟨by decide, by decide⟩) false ['\t', '\t'] ⟨rfl, by simp⟩
    (by decide +kernel)

def secondGroup : ObjectLines :=
  .ofObject (plainGroup "A2") (plainGroup_isProper ⟨by decide, by decide⟩) false ['\t', '\t'] ⟨rfl, by simp⟩
    (by decide +kernel)

/-- A project that is two groups. -/
def groupsLayout : Layout where
  head := "\x7b\n\tobjects = \x7b\n".toList
  blocks := [.kind {
    isa := "PBXGroup"
    parts := [.object firstGroup, .object secondGroup]
    isa_ne := by decide
    isa_word := List.all_eq_true.mp (by decide)
    own := fun o ho => by
      rcases List.mem_cons.mp ho with ho | ho
      · obtain rfl := Part.object.inj ho
        decide +kernel
      · obtain rfl := Part.object.inj (List.mem_singleton.mp ho)
        decide +kernel }]
  indent := ['\t']
  foot := ";\n\x7d\n".toList
  root := (emptiedRoot? "\x7b\n\tobjects = \x7b\n".toList ";\n\x7d\n".toList).getD {}
  head_lines := ⟨"\x7b\n\tobjects = \x7b".toList, by decide⟩
  head_single := by decide
  head_unmarked := by decide +kernel
  indent_isIndent := ⟨rfl, by simp⟩
  emptied := by
    have h : (emptiedRoot? "\x7b\n\tobjects = \x7b\n".toList ";\n\x7d\n".toList).isSome = true := by decide +kernel
    obtain ⟨root, hroot⟩ := Option.isSome_iff_exists.mp h
    rw [hroot]
    exact document_of_emptiedRoot? hroot
  isas_nodup := by decide
  ids_nodup := by decide

/-! ## Texts in Xcode layout -/

section Layouts

variable {L : Layout} {g₀ : Graph} {source : String} {changes : List Change} {t : List Char}

theorem loaded_of_load (h : Graph.load source L.text = .ok g₀) : Loaded L g₀ := by
  obtain ⟨g, hload, hloaded, -⟩ := L.load_text source
  rw [h] at hload
  rwa [Except.ok.inj hload]

/-- The first of two groups gets a child. -/
def childAdded : List Change := [.appendRef "A1" "children" "B1" (some "b.m")]

theorem childAdded_isProper : ∀ c ∈ childAdded, c.IsProper := by
  intro c hc
  obtain rfl := List.mem_singleton.mp hc
  refine ⟨by decide, isQuotable_of_word (List.all_eq_true.mp (by decide)), ⟨by decide, by decide⟩, fun d hd => ?_⟩
  obtain rfl := Option.some.inj hd
  exact ⟨by decide, fun hin => absurd (hin.subset List.mem_cons_self) (by decide)⟩

theorem childAdded_groupsLayout (hload : Graph.load "project" groupsLayout.text = .ok g₀) :
    (g₀.changed childAdded).removed = [] ∧ (g₀.changed childAdded).touched = ["A1"] ∧
      ∃ t, (g₀.changed childAdded).serialise = .ok t := by
  have hstate : (Graph.load "project" groupsLayout.text).toOption.any (fun g =>
      (g.changed childAdded).added.isEmpty && (g.changed childAdded).removed.isEmpty &&
      (g.changed childAdded).touched == ["A1"]) = true := by decide +kernel
  simp only [hload, Except.toOption, Option.any_some, Bool.and_eq_true, List.isEmpty_iff, beq_iff_eq] at hstate
  obtain ⟨⟨hadded, hremoved⟩, htouched⟩ := hstate
  exact ⟨hremoved, htouched, exists_serialise_of_touched hadded hremoved htouched⟩

/-- However a project in Xcode layout was changed, what it is written as is a project, and every object that was
neither removed nor touched stands in it on the lines it had. -/
theorem lines_kept_of_changed (L : Layout) (hload : Graph.load source L.text = .ok g₀)
    (hchanges : ∀ c ∈ changes, c.IsProper) (ht : (g₀.changed changes).serialise = .ok t) :
    (∃ g, Graph.load source t = .ok g) ∧ ∀ l ∈ L.objects, l.id ∉ (g₀.changed changes).removed →
      l.id ∉ (g₀.changed changes).touched → l.text <:+: t := by
  have hloaded := loaded_of_load hload
  obtain ⟨g, hread, -, -, hkept⟩ := (hloaded.follows.changed hchanges).load_serialise hloaded ht source
  exact ⟨⟨g, hread⟩, hkept⟩

/-- The other group stands where it stood. -/
theorem lines_kept_of_changed_groupsLayout :
    ∃ g₀ t, Graph.load "project" groupsLayout.text = .ok g₀ ∧ (∀ c ∈ childAdded, c.IsProper) ∧
      (g₀.changed childAdded).serialise = .ok t ∧ (∃ g, Graph.load "project" t = .ok g) ∧
      secondGroup.text <:+: t := by
  obtain ⟨g₀, hload, -⟩ := groupsLayout.load_text "project"
  obtain ⟨hremoved, htouched, t, ht⟩ := childAdded_groupsLayout hload
  obtain ⟨hread, hkept⟩ := lines_kept_of_changed groupsLayout hload childAdded_isProper ht
  refine ⟨g₀, t, hload, childAdded_isProper, ht, hread, hkept secondGroup ?_ ?_ ?_⟩
  · exact Layout.mem_objects.mpr (.tail _ (.tail _ (.head _)))
  · rw [hremoved]
    exact List.not_mem_nil
  · rw [htouched]
    decide

end Layouts

end Xcode
end ModuleLink
