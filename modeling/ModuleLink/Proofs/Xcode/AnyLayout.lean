import ModuleLink.Proofs.Plist.LastTable
import ModuleLink.Proofs.Xcode.Reload
import ModuleLink.Proofs.Xcode.Rows

/-!
The graph that a text is read into, however the text is laid out.  Where every id has one entry and is written without
quotes, the text holds the objects row by row.
-/

namespace ModuleLink
namespace Xcode

open Plist Text

/-! ## Rows and objects -/

/-- Entries that were read are objects that can be changed. -/
theorem isProper_of_reads {ms : List Member} {os : List Object} {cs rest : List Char}
    (hreads : Reads (.members ms) cs rest)
    (hunquoted : ∀ m ∈ ms, m.key.text.toList.head? ≠ some '"') (h : ms.map Member.pair = os.map Object.pair)
    {o : Object} (ho : o ∈ os) : o.IsProper ∧ o.tidy = o := by
  obtain ⟨m, hm, hkey, hvalue⟩ := exists_member_of_pairs h ho
  obtain ⟨hwritten, hwritable⟩ := hreads.writable m hm
  obtain ⟨-, htidy⟩ := hreads.tidy m hm
  rw [hkey] at hwritten
  rw [hvalue] at hwritable htidy
  have hhead := hunquoted m hm
  rw [hkey] at hhead
  refine ⟨⟨⟨hwritten.token, hhead⟩, hwritten.comment, hwritable⟩, ?_⟩
  rw [Value.tidy_dict] at htidy
  rw [Object.tidy, Value.dict.inj htidy]

/-- The entries of the object table of a text. -/
def tableMembers (text : List Char) : List Member :=
  match document tableKey text with
  | .ok (_, tables) => (tables.getLastD ⟨[], []⟩).members
  | .error _ => []

/-- The entries of the object table have ids of their own, which are written without quotes. -/
def HasPlainIds (text : List Char) : Prop :=
  ((tableMembers text).map (·.key.value)).Nodup ∧ ∀ m ∈ tableMembers text, m.key.text.toList.head? ≠ some '"'

instance (text : List Char) : Decidable (HasPlainIds text) := inferInstanceAs (Decidable (_ ∧ _))

section Rows

variable {source : String} {text : List Char} {g : Graph}

/-- The text of a graph holds its objects row by row, each row has the span of its object, and in the place of these
rows there may be anything that holds objects of the same ids. -/
structure Rowed (source : String) (g : Graph) (pre : List Char) (rows : List Row) (post : List Char) : Prop where
  text : g.text = pre ++ (textOfRows rows ++ post)
  pairs : rows.map Row.pair = g.objects.map Object.pair
  spans : List.Forall₂ (fun r span => g.spans.lookup r.key.text = some span) rows (spansFrom pre.length rows)
  exchange : ∀ new os, Carries new (os.map Object.pair) → os.map Object.id = g.ids →
    ∃ g', Graph.load source (pre ++ (new ++ post)) = .ok g' ∧ g'.objects = os

theorem Rowed.map_text {pre post : List Char} {rows : List Row} (h : Rowed source g pre rows post) :
    rows.map (·.key.text) = g.ids := by
  have htexts := congrArg (List.map fun p => p.1.text) h.pairs
  rw [List.map_map, List.map_map] at htexts
  exact htexts

/-- The spans of the last table are those that count. -/
theorem lookup_spansOf {tables : List ObjectTable} {last : ObjectTable} (hlast : tables.getLast? = some last)
    (hnodup : (last.members.map (·.key.value)).Nodup) {m : Member} (hm : m ∈ last.members) :
    (spansOf text tables).lookup m.key.value = some (spanOf text m) := by
  obtain ⟨earlier, rfl⟩ := List.getLast?_eq_some_iff.mp hlast
  rw [spansOf, List.flatMap_append, List.flatMap_singleton, List.foldl_append]
  exact Dict.lookup_foldl_assign_of_mem (f := fun m : Member => m.key.value) (spanOf text) hnodup hm

/-- Objects that have the ids of the table may take the place of its objects. -/
theorem exists_load_of_exchange {front post close : List Char} {tables : List ObjectTable}
    {last : ObjectTable} {ids : List String} {new : List Char} {os : List Object}
    (hlisted : ∀ t ∈ tables, ∀ m ∈ t.members, m.key.value ∈ ids) (hnodup : ids.Nodup)
    (hplain : ∀ id ∈ ids, id.toList.head? ≠ some '"') (hpost : Reads (.members []) post close)
    (hexchange : ∀ ⦃inner : List Member⦄ ⦃new : List Char⦄, Reads (.members inner) new close →
      ∃ root' tables', document tableKey (front ++ '\x7b' :: new) = .ok (root', tables' ++ [⟨inner, last.close⟩]) ∧
        tables'.map ObjectTable.pairs = tables.dropLast.map ObjectTable.pairs)
    (hnew : Carries new (os.map Object.pair)) (hos : os.map Object.id = ids) :
    ∃ g', Graph.load source (front ++ '\x7b' :: (new ++ post)) = .ok g' ∧ g'.objects = os := by
  obtain ⟨ms, hms, hreads⟩ := hnew hpost
  rw [List.append_nil] at hreads
  obtain ⟨root', tables', hdocument, hpairs⟩ := hexchange hreads
  have hvalue : ∀ m ∈ ms, m.key.value = m.key.text := by
    intro m hm
    obtain ⟨o, ho, hpair⟩ := List.mem_map.mp (hms ▸ List.mem_map_of_mem (f := Member.pair) hm)
    have hkey : m.key = ⟨o.id, o.comment⟩ := (Prod.mk.inj hpair).1.symm
    refine Scalar.value_of_head ?_
    rw [hkey]
    exact hplain o.id (hos ▸ List.mem_map_of_mem ho)
  have hkeys : ms.map (·.key.value) = ids := (map_key_of_pairs hms hvalue).trans hos
  refine ⟨_, load_eq_ok_iff.mpr ⟨root', _, ⟨ms, last.close⟩, os, hdocument, by simp,
    (objectsOf_eq_ok_iff (hkeys ▸ hnodup) hvalue).mpr hms, fun t ht m hm => ?_, rfl⟩, rfl⟩
  rw [hos]
  rcases List.mem_append.mp ht with ht | ht
  · -- The tables in front hold what they held.
    obtain ⟨t₀, ht₀, hsame⟩ := List.mem_map.mp (hpairs ▸ List.mem_map_of_mem (f := ObjectTable.pairs) ht)
    have hin : m.pair ∈ t₀.pairs := by
      rw [hsame]
      exact List.mem_map_of_mem hm
    obtain ⟨m₀, hm₀, hpair⟩ := List.mem_map.mp hin
    have hkey : m₀.key = m.key := (Prod.mk.inj hpair).1
    rw [← hkey]
    exact hlisted t₀ (List.dropLast_subset _ ht₀) m₀ hm₀
  · obtain rfl := List.mem_singleton.mp ht
    exact hkeys ▸ List.mem_map_of_mem (f := fun m : Member => m.key.value) hm

theorem exists_rowed_of_load (hload : Graph.load source text = .ok g) (hids : HasPlainIds text) :
    Follows g g ∧ (∀ o ∈ g.objects, o.tidy = o) ∧ ∃ pre rows post, Rowed source g pre rows post := by
  obtain ⟨root, tables, last, os, hdocument, hlast, hos, hlisted, rfl⟩ := load_eq_ok_iff.mp hload
  have hmembers : tableMembers text = last.members := by
    rw [tableMembers, hdocument]
    simp only [List.getLastD_eq_getLast?, hlast, Option.getD_some]
  obtain ⟨hnodup, hunquoted⟩ := hids
  rw [hmembers] at hnodup hunquoted
  obtain ⟨front, opened, close, rfl, hclose, hreads, hexchange⟩ := document_exchange_last hdocument hlast
  have hplain : ∀ m ∈ last.members, m.key.value = m.key.text := fun m hm => Scalar.value_of_head (hunquoted m hm)
  have hpairs := (objectsOf_eq_ok_iff hnodup hplain).mp hos
  have hids : last.members.map (·.key.value) = os.map Object.id := map_key_of_pairs hpairs hplain
  have hproper := fun o ho => isProper_of_reads hreads hunquoted hpairs (o := o) ho
  rw [hids] at hnodup
  refine ⟨follows_refl hnodup (listed_foldl os) (fun o ho => (hproper o ho).1) rfl rfl, fun o ho => (hproper o ho).2, ?_⟩
  -- Behind the brace the rows start.
  obtain ⟨rows, foot, rfl, hfoot, hrows, hspans⟩ := exists_rows hreads (endsSolid_brace front)
  have hsplit (u : List Char) : front ++ '\x7b' :: u = (front ++ ['\x7b']) ++ u := by simp
  have hpost : Reads (.members []) (foot ++ '\x7d' :: close) close :=
    .noMember (by rw [hfoot.skip_append, skip_of_startsSolid (startsSolid_mark (by decide) _)])
  refine ⟨front ++ ['\x7b'], rows, foot ++ '\x7d' :: close, hsplit _, hrows.trans hpairs, ?_, fun new os' hnew hos' => ?_⟩
  · have htexts : rows.map (·.key.text) = last.members.map (·.key.value) := by
      rw [List.map_congr_left hplain]
      have h := congrArg (List.map fun p => p.1.text) hrows
      rw [List.map_map, List.map_map] at h
      exact h
    refine (List.forall₂_map_left_iff (R := fun id span => (spansOf _ tables).lookup id = some span)).mp ?_
    rw [htexts, ← hspans, List.forall₂_map_left_iff, List.forall₂_map_right_iff, List.forall₂_same, ← hsplit]
    exact fun m hm => lookup_spansOf hlast (hids ▸ hnodup) hm
  · rw [← hsplit]
    exact exists_load_of_exchange hlisted hnodup (fun id hid => by
      obtain ⟨o, ho, rfl⟩ := List.mem_map.mp hid
      exact (hproper o ho).1.id.unquoted) hpost hexchange hnew hos'

end Rows

end Xcode
end ModuleLink
