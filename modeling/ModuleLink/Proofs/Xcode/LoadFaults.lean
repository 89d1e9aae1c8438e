import ModuleLink.Proofs.Xcode.Tables

/-!
What becomes of a text that is read as a project.  It is read into a graph or reported as no project, unless one of its
object tables has an entry that the last one lacks.
-/

namespace ModuleLink

section

variable {ε α β : Type}

theorem error_of_bind {x : Except ε α} {f : α → Except ε β} {e : ε} (h : (x >>= f) = .error e) :
    x = .error e ∨ ∃ a, x = .ok a ∧ f a = .error e := by
  cases x with
  | error e' => exact .inl (congrArg _ (Except.error.inj h))
  | ok a => exact .inr ⟨a, rfl, h⟩

theorem exists_of_mapM_eq_error {f : α → Except ε β} {xs : List α} {e : ε} (h : xs.mapM f = .error e) :
    ∃ x ∈ xs, f x = .error e := by
  induction xs with
  | nil => contradiction
  | cons x xs ih =>
    rw [List.mapM_cons] at h
    rcases error_of_bind h with hx | ⟨y, -, h⟩
    · exact ⟨x, List.mem_cons_self, hx⟩
    · rcases error_of_bind h with hxs | ⟨ys, -, h⟩
      · obtain ⟨z, hz, hfz⟩ := ih hxs
        exact ⟨z, List.mem_cons_of_mem x hz, hfz⟩
      · contradiction

end

namespace Xcode

open Plist

variable {source : String} {text : List Char} {root : Dict Value} {tables : List ObjectTable} {last : ObjectTable}
  {os : List Object} {d : Dict Value} {f : Fault}

/-! ## Entries as objects -/

/-- An entry that is no dictionary is reported by its key. -/
theorem exists_of_objectsOf_eq_error (h : objectsOf source d = .error f) :
    ∃ e ∈ d.entries, (∀ fields, e.2 ≠ .dict fields) ∧
      f = .badProject source ("object " ++ e.1 ++ " is not a dictionary") none := by
  obtain ⟨⟨id, v⟩, he, hfault⟩ := exists_of_mapM_eq_error h
  refine ⟨(id, v), he, ?_⟩
  cases v with
  | scalar s => exact ⟨fun _ => by simp, (Except.error.inj hfault).symm⟩
  | list items => exact ⟨fun _ => by simp, (Except.error.inj hfault).symm⟩
  | dict fields => contradiction

/-! ## Entries without objects -/

/-- The objects come from the last table and the spans from all of them. -/
theorem load_eq_of_tables (source : String) (hdocument : document tableKey text = .ok (root, tables))
    (hlast : tables.getLast? = some last) :
    Graph.load source text = objectsOf source (Dict.ofMembers last.members) >>= fun os =>
      match (spansOf text tables).find? fun e => !os.any (·.id == e.1) with
      | some (id, _) => .error (.unlisted id)
      | none => .ok (Graph.ofTables source text root tables last os) := by
  have hlastD : tables.getLastD ⟨[], []⟩ = last := by
    rw [List.getLastD_eq_getLast?, hlast]
    rfl
  rw [Graph.load, hdocument]
  simp only [hlastD]
  rfl

/-- A span without an object is not let through. -/
theorem load_of_objectsOf (hdocument : document tableKey text = .ok (root, tables)) (hlast : tables.getLast? = some last)
    (hos : objectsOf source (Dict.ofMembers last.members) = .ok os) :
    (Graph.load source text = .ok (Graph.ofTables source text root tables last os) ∧
      ∀ e ∈ spansOf text tables, e.1 ∈ os.map Object.id) ∨
    ∃ e ∈ spansOf text tables, e.1 ∉ os.map Object.id ∧ Graph.load source text = .error (.unlisted e.1) := by
  have hlisted (id : String) : (!os.any (·.id == id)) = true ↔ id ∉ os.map Object.id := by
    simp only [Bool.not_eq_true', List.any_eq_false, beq_iff_eq, List.mem_map, not_exists, not_and]
  rw [load_eq_of_tables source hdocument hlast, bind_of_ok hos]
  split
  next id span hfind =>
    exact .inr ⟨(id, span), List.mem_of_find?_eq_some hfind, (hlisted id).mp (List.find?_some hfind :), rfl⟩
  next hnone =>
    refine .inl ⟨rfl, fun e he => ?_⟩
    by_contra hstray
    exact List.find?_eq_none.mp hnone e he ((hlisted e.1).mpr hstray)

/-- The last object table of a text holds objects only, and another one has an entry under a key that it lacks. -/
def HasStrayEntry (text : List Char) : Prop :=
  ∃ root tables last, document tableKey text = .ok (root, tables) ∧ tables.getLast? = some last ∧
    (∀ e ∈ (Dict.ofMembers last.members).entries, ∃ fields, e.2 = .dict fields) ∧
    ∃ t ∈ tables, ∃ m ∈ t.members, m.key.value ∉ (Dict.ofMembers last.members).keys

/-- A text is read into a graph whose spans are those of its objects, or it is no project, or it has a stray entry. -/
theorem load_cases (source : String) (text : List Char) :
    (∃ g, Graph.load source text = .ok g ∧ ∀ e ∈ g.spans, e.1 ∈ g.ids) ∨
    (∃ reason line, Graph.load source text = .error (.badProject source reason line)) ∨
    ((∃ id, Graph.load source text = .error (.unlisted id)) ∧ HasStrayEntry text) := by
  cases hdocument : document tableKey text with
  | error stop =>
    have hload : Graph.load source text = .error (.badProject source (Reason.message stop.reason)
        (some (Text.newlines text - Text.newlines stop.left + 1))) := by rw [Graph.load, hdocument]
    exact .inr (.inl ⟨_, _, hload⟩)
  | ok parts =>
    obtain ⟨root, tables⟩ := parts
    obtain ⟨last, hlast⟩ := exists_last_of_document hdocument
    cases hos : objectsOf source (Dict.ofMembers last.members) with
    | error f =>
      obtain ⟨e, -, -, rfl⟩ := exists_of_objectsOf_eq_error hos
      have hload : Graph.load source text =
          .error (.badProject source ("object " ++ e.1 ++ " is not a dictionary") none) := by
        rw [load_eq_of_tables source hdocument hlast, hos]
        rfl
      exact .inr (.inl ⟨_, _, hload⟩)
    | ok os =>
      obtain ⟨hids, hdicts⟩ := dict_of_objectsOf hos
      rcases load_of_objectsOf hdocument hlast hos with ⟨hload, hspans⟩ | ⟨e, he, hstray, hload⟩
      · exact .inl ⟨_, hload, hspans⟩
      · obtain ⟨t, ht, m, hm, hkey⟩ := mem_map_fst_spansOf.mp (List.mem_map_of_mem (f := (·.1)) he)
        refine .inr (.inr ⟨⟨e.1, hload⟩, root, tables, last, hdocument, hlast, hdicts, t, ht, m, hm, ?_⟩)
        rw [hkey, ← hids]
        exact hstray

theorem exists_unlisted_of_hasStrayEntry (source : String) (h : HasStrayEntry text) :
    ∃ id, Graph.load source text = .error (.unlisted id) := by
  obtain ⟨root, tables, last, hdocument, hlast, hdicts, t, ht, m, hm, hstray⟩ := h
  cases hos : objectsOf source (Dict.ofMembers last.members) with
  | error f =>
    obtain ⟨e, he, hother, -⟩ := exists_of_objectsOf_eq_error hos
    obtain ⟨fields, hdict⟩ := hdicts e he
    exact absurd hdict (hother fields)
  | ok os =>
    obtain ⟨hids, -⟩ := dict_of_objectsOf hos
    rcases load_of_objectsOf hdocument hlast hos with ⟨-, hspans⟩ | ⟨e, -, -, hload⟩
    · obtain ⟨e, he, hkey⟩ := List.mem_map.mp (mem_map_fst_spansOf.mpr ⟨t, ht, m, hm, rfl⟩)
      have hlisted := hspans e he
      rw [hkey, hids] at hlisted
      exact absurd hlisted hstray
    · exact ⟨e.1, hload⟩

/-- Reading a text ends in a graph whose spans all belong to objects, or in a report that it is no project, exactly
where no table has an entry that the last one lacks. -/
theorem load_loads_or_reports_iff (source : String) (text : List Char) :
    ((∃ g, Graph.load source text = .ok g ∧ ∀ e ∈ g.spans, e.1 ∈ g.ids) ∨
      ∃ reason line, Graph.load source text = .error (.badProject source reason line)) ↔ ¬HasStrayEntry text := by
  constructor
  · intro hends hstray
    obtain ⟨id, hload⟩ := exists_unlisted_of_hasStrayEntry source hstray
    rw [hload] at hends
    rcases hends with ⟨g, hg, -⟩ | ⟨reason, line, hfault⟩
    · contradiction
    · exact absurd (Except.error.inj hfault) (by simp)
  · intro hstray
    rcases load_cases source text with hloads | hreports | ⟨-, h⟩
    · exact .inl hloads
    · exact .inr hreports
    · exact absurd h hstray

/-- Two object tables of different ids. -/
def twoTables : List Char :=
  "\x7b objects = \x7b A = \x7bisa = PBXGroup; \x7d; \x7d; objects = \x7b B = \x7bisa = PBXGroup; \x7d; \x7d; \x7d".toList

/-- The last table lacks the object of the first one, for which there is no report. -/
theorem load_twoTables : ∃ id, Graph.load "project.pbxproj" twoTables = .error (.unlisted id) := by
  have hfault : (match Graph.load "project.pbxproj" twoTables with
      | .error f => f == .unlisted "A"
      | .ok _ => false) = true := by decide +kernel
  cases hload : Graph.load "project.pbxproj" twoTables with
  | error f =>
    rw [hload] at hfault
    exact ⟨"A", congrArg _ (beq_iff_eq.mp hfault)⟩
  | ok g =>
    rw [hload] at hfault
    contradiction

end Xcode
end ModuleLink
