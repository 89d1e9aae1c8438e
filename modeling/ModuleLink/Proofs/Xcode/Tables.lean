import ModuleLink.Proofs.Outcome
import ModuleLink.Proofs.Plist.Table
import ModuleLink.Xcode.Load

/-!
The graph that the tables of a document make up.
-/

namespace ModuleLink
namespace Xcode

open Plist

/-- The object as an entry of the table. -/
def Object.pair (o : Object) : Scalar × Value := (⟨o.id, o.comment⟩, .dict o.fields)

/-! ## Reading -/

section Load

variable {source : String} {text : List Char} {root : Dict Value} {tables : List ObjectTable} {last : ObjectTable}
  {os : List Object} {g : Graph}

/-- The objects have the keys of the table, and every entry of it is a dictionary. -/
theorem dict_of_objectsOf {d : Dict Value} (h : objectsOf source d = .ok os) :
    os.map Object.id = d.keys ∧ ∀ e ∈ d.entries, ∃ fields, e.2 = .dict fields := by
  have hentries : List.Forall₂ (fun e o => Object.id o = e.1 ∧ ∃ fields, e.2 = .dict fields) d.entries os := by
    refine (forall₂_of_mapM h).imp fun ⟨id, v⟩ o ho => ?_
    cases v with
    | scalar | list => contradiction
    | dict fields =>
      obtain rfl := Except.ok.inj ho
      exact ⟨rfl, fields, rfl⟩
  constructor
  · rw [Dict.keys, ← List.forall₂_eq_eq_eq, List.forall₂_map_left_iff, List.forall₂_map_right_iff]
    exact hentries.flip.imp fun _ _ h => h.1
  · intro e he
    obtain ⟨o, -, -, hdict⟩ := exists_of_forall₂ hentries.flip e he
    exact hdict

theorem exists_last_of_document (h : document tableKey text = .ok (root, tables)) :
    ∃ last, tables.getLast? = some last := by
  rw [document] at h
  obtain ⟨opened, -, h⟩ := ok_of_bind h
  obtain ⟨⟨⟨ms, tables'⟩, left⟩, -, h⟩ := ok_of_bind h
  obtain ⟨rest, -, h⟩ := ok_of_bind h
  split at h
  · contradiction
  split at h
  · contradiction
  next hsome =>
    obtain ⟨-, rfl⟩ := Prod.mk.inj (Except.ok.inj h)
    exact Option.isSome_iff_exists.mp (List.getLast?_isSome.mpr fun hnil => hsome (by rw [hnil]; rfl))

theorem mem_map_fst_spansOf {k : String} : k ∈ (spansOf text tables).map (·.1) ↔
    ∃ t ∈ tables, ∃ m ∈ t.members, m.key.value = k := by
  rw [spansOf, Dict.mem_map_fst_foldl_assign]
  simp only [List.map_nil, List.not_mem_nil, or_false, List.mem_map, List.mem_flatMap]
  constructor
  · rintro ⟨m, ⟨t, ht, hm⟩, hkey⟩
    exact ⟨t, ht, m, hm, hkey⟩
  · rintro ⟨t, ht, m, hm, hkey⟩
    exact ⟨m, ⟨t, ht, hm⟩, hkey⟩

/-- The graph that the tables of a document make up. -/
def Graph.ofTables (source : String) (text : List Char) (root : Dict Value) (tables : List ObjectTable)
    (last : ObjectTable) (os : List Object) : Graph where
  source := source
  text := text
  root := root
  tableEnd := text.length - last.close.length
  objects := os
  index := os.foldl (fun ix o => indexInsert o.isa o.id ix) []
  spans := spansOf text tables
  sections := sectionsOf text (text.length - last.close.length) os (spansOf text tables)

/-- A text is read into a graph if it is a document, its last table holds objects, and so does it for every other. -/
theorem load_eq_ok_iff : Graph.load source text = .ok g ↔ ∃ root tables last os,
    document tableKey text = .ok (root, tables) ∧ tables.getLast? = some last ∧
      objectsOf source (Dict.ofMembers last.members) = .ok os ∧
      (∀ t ∈ tables, ∀ m ∈ t.members, m.key.value ∈ os.map Object.id) ∧
      g = Graph.ofTables source text root tables last os := by
  have hlisted (tables : List ObjectTable) (os : List Object) :
      ((spansOf text tables).find? fun e => !os.any (·.id == e.1)) = none ↔
        ∀ t ∈ tables, ∀ m ∈ t.members, m.key.value ∈ os.map Object.id := by
    rw [List.find?_eq_none]
    simp only [Bool.not_eq_true', Bool.not_eq_false, List.any_eq_true, beq_iff_eq]
    constructor
    · intro h t ht m hm
      obtain ⟨e, he, hkey⟩ := List.mem_map.mp (mem_map_fst_spansOf.mpr ⟨t, ht, m, hm, rfl⟩)
      obtain ⟨o, ho, hid⟩ := h e he
      exact List.mem_map.mpr ⟨o, ho, hid.trans hkey⟩
    · intro h e he
      obtain ⟨t, ht, m, hm, hkey⟩ := mem_map_fst_spansOf.mp (List.mem_map_of_mem (f := (·.1)) he)
      obtain ⟨o, ho, hid⟩ := List.mem_map.mp (h t ht m hm)
      exact ⟨o, ho, hid.trans hkey⟩
  constructor
  · intro h
    rw [Graph.load] at h
    split at h
    · contradiction
    next root tables hdocument =>
      obtain ⟨last, hlast⟩ := exists_last_of_document hdocument
      have hlastD : tables.getLastD ⟨[], []⟩ = last := by
        rw [List.getLastD_eq_getLast?, hlast]
        rfl
      obtain ⟨os, hos, h⟩ := ok_of_bind h
      simp only [hlastD] at hos h
      split at h
      · contradiction
      next hnone =>
        exact ⟨root, tables, last, os, hdocument, hlast, hos, (hlisted tables os).mp hnone, (Except.ok.inj h).symm⟩
  · rintro ⟨root, tables, last, os, hdocument, hlast, hos, hall, rfl⟩
    have hlastD : tables.getLastD ⟨[], []⟩ = last := by
      rw [List.getLastD_eq_getLast?, hlast]
      rfl
    rw [Graph.load, hdocument]
    show (do
      let objects ← objectsOf source (Dict.ofMembers (tables.getLastD ⟨[], []⟩).members)
      _) = _
    rw [hlastD, bind_of_ok hos]
    simp only
    rw [(hlisted tables os).mpr hall]
    rfl

theorem sections_of_load (h : Graph.load source text = .ok g) :
    g.sections = sectionsOf g.text g.tableEnd g.objects g.spans := by
  obtain ⟨root, tables, last, os, -, -, -, -, rfl⟩ := load_eq_ok_iff.mp h
  rfl

theorem spans_of_load (h : Graph.load source text = .ok g) (hdocument : document tableKey text = .ok (root, tables)) :
    g.spans = spansOf text tables := by
  obtain ⟨root', tables', last, os, hdocument', -, -, -, rfl⟩ := load_eq_ok_iff.mp h
  obtain ⟨-, rfl⟩ := Prod.mk.inj (Except.ok.inj (hdocument.symm.trans hdocument'))
  rfl

theorem unmodified_of_load (h : Graph.load source text = .ok g) :
    g.text = text ∧ g.added = [] ∧ g.removed = [] ∧ g.touched = [] := by
  obtain ⟨root, tables, last, os, -, -, -, -, rfl⟩ := load_eq_ok_iff.mp h
  exact ⟨rfl, rfl, rfl, rfl⟩

end Load

/-! ## Entries and objects -/

section Pairs

variable {source : String} {ms : List Member} {os : List Object}

/-- What the entries of different ids say. -/
theorem spelling_of_nodup (hnodup : (ms.map (·.key.value)).Nodup) {m : Member} (hm : m ∈ ms) :
    (Dict.ofMembers ms).spelling m.key.value = m.key := by
  have hlookup : (ms.map fun m => (m.key.value, m.key)).lookup m.key.value = some m.key := by
    refine Dict.lookup_of_mem ?_ (List.mem_map_of_mem (f := fun m : Member => (m.key.value, m.key)) hm)
    rwa [List.map_map]
  rw [Dict.ofMembers_of_nodup hnodup, Dict.spelling, hlookup]
  rfl

/-- Entries with ids of their own, written as they are, are objects exactly if each is one. -/
theorem objectsOf_eq_ok_iff (hnodup : (ms.map (·.key.value)).Nodup) (hplain : ∀ m ∈ ms, m.key.value = m.key.text) :
    objectsOf source (Dict.ofMembers ms) = .ok os ↔ ms.map Member.pair = os.map Object.pair := by
  have hentries : (Dict.ofMembers ms).entries = ms.map fun m => (m.key.value, m.value) := by
    rw [Dict.ofMembers_of_nodup hnodup]
  have hspelling : ∀ m ∈ ms, (Dict.ofMembers ms).spelling m.key.value = m.key := fun m hm => spelling_of_nodup hnodup hm
  rw [objectsOf, hentries, mapM_eq_ok_iff, List.forall₂_map_left_iff, ← List.forall₂_eq_eq_eq, List.forall₂_map_left_iff,
    List.forall₂_map_right_iff]
  -- An entry is the object of its own key only, since a key that is written as it is has no spelling but its id.
  refine forall₂_congr_of_mem fun m hm o => ?_
  have hkey : m.key = ⟨o.id, o.comment⟩ ↔ m.key.value = o.id ∧ m.key.comment = o.comment := by
    rw [hplain m hm]
    cases m.key
    simp
  rw [Member.pair, Object.pair, Prod.mk.injEq, hkey]
  simp only [hspelling m hm]
  obtain ⟨id, fields, comment⟩ := o
  cases m.value with
  | scalar | list => simp
  | dict d => simp [and_comm, and_assoc, and_left_comm]

theorem exists_member_of_pairs (h : ms.map Member.pair = os.map Object.pair) {o : Object} (ho : o ∈ os) :
    ∃ m ∈ ms, m.key = ⟨o.id, o.comment⟩ ∧ m.value = .dict o.fields := by
  obtain ⟨m, hm, hpair⟩ := List.mem_map.mp (h ▸ List.mem_map_of_mem (f := Object.pair) ho)
  exact ⟨m, hm, Prod.mk.inj hpair⟩

theorem map_key_of_pairs (h : ms.map Member.pair = os.map Object.pair) (hplain : ∀ m ∈ ms, m.key.value = m.key.text) :
    ms.map (·.key.value) = os.map Object.id := by
  have htexts := congrArg (List.map fun p => p.1.text) h
  rw [List.map_map, List.map_map] at htexts
  rw [List.map_congr_left hplain]
  exact htexts

end Pairs

end Xcode
end ModuleLink
