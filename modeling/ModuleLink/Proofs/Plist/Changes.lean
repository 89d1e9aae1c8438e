import ModuleLink.Plist.Draft
import ModuleLink.Proofs.Plist.Rendering

/-!
Changes that keep a value one that a text can hold.
-/

namespace ModuleLink
namespace Plist

section Dict

variable {d : Dict Value} {key k : String} {v : Value}

theorem Value.Writable.values (h : (Value.dict d).Writable) : ∀ e ∈ d.entries, e.2.Writable := by
  cases h with
  | dict _ _ hvalues => exact hvalues

theorem Value.Writable.get? (h : (Value.dict d).Writable) (hget : d.get? k = some v) : v.Writable :=
  h.values (k, v) (Dict.mem_of_lookup hget)

theorem Value.Writable.items {items : List Value} (h : (Value.list items).Writable) : ∀ v ∈ items, v.Writable := by
  cases h with
  | list hitems => exact hitems

/-- Entries with keys that need no spelling can be written. -/
theorem writable_plain {es : List (String × Value)} (hkeys : (es.map (·.1)).Nodup)
    (hquotable : ∀ e ∈ es, IsQuotable e.1) (hvalues : ∀ e ∈ es, e.2.Writable) : (Value.dict ⟨es, []⟩).Writable := by
  refine .dict hkeys (fun k hk => ?_) hvalues
  rw [Dict.names, List.map_nil, List.append_nil] at hk
  obtain ⟨e, he, rfl⟩ := List.mem_map.mp hk
  exact ⟨Scalar.isWritten_of (hquotable e he) (by simp), Scalar.value_of e.1 none⟩

/-- New entries with one more key, which can be quoted, can be written. -/
theorem writable_of_entries {es : List (String × Value)} (h : (Value.dict d).Writable) (hkey : IsQuotable key)
    (hv : v.Writable) (hnodup : (es.map (·.1)).Nodup) (hmem : ∀ e ∈ es, e = (key, v) ∨ e ∈ d.entries) :
    (Value.dict { d with entries := es }).Writable := by
  cases h with
  | dict _ hspelled hvalues =>
    refine .dict hnodup (fun k hk => ?_) fun e he => ?_
    · by_cases hold : k ∈ d.names
      · exact hspelled k hold
      · have hnew : k = key := by
          rcases List.mem_append.mp hk with hk | hk
          · obtain ⟨e, he, rfl⟩ := List.mem_map.mp hk
            rcases hmem e he with rfl | he
            · rfl
            · exact absurd (Dict.mem_names_of_mem he) hold
          · exact absurd (List.mem_append_right _ hk) hold
        have hnone : d.spellings.lookup k = none :=
          Dict.lookup_eq_none_iff.mpr fun hin => hold (List.mem_append_right _ hin)
        rw [Dict.spelling, hnone, Option.getD_none, hnew]
        exact ⟨Scalar.isWritten_of hkey (by simp), Scalar.value_of key none⟩
    · rcases hmem e he with rfl | he
      · exact hv
      · exact hvalues e he

theorem Value.Writable.nodup (h : (Value.dict d).Writable) : (d.entries.map (·.1)).Nodup := by
  cases h with
  | dict hkeys => exact hkeys

theorem Value.Writable.set (h : (Value.dict d).Writable) (hkey : IsQuotable key) (hv : v.Writable) :
    (Value.dict (d.set key v)).Writable :=
  writable_of_entries h hkey hv (Dict.nodup_assign _ _ h.nodup) fun _ he => Dict.mem_assign he

theorem Dict.placeSorted_perm (key : String) (v : Value) (es : List (String × Value)) :
    (placeSorted key v es).Perm ((key, v) :: es) := by
  induction es with
  | nil => exact .refl _
  | cons e es ih =>
    obtain ⟨k, w⟩ := e
    rw [placeSorted]
    split
    · exact .refl _
    · exact (ih.cons _).trans (.swap _ _ _)

theorem Value.Writable.setSorted (h : (Value.dict d).Writable) (hkey : IsQuotable key) (hv : v.Writable) :
    (Value.dict (d.setSorted key v)).Writable := by
  rw [Dict.setSorted]
  split
  · exact h.set hkey hv
  next hnone =>
    have hperm := Dict.placeSorted_perm key v d.entries
    have hnotMem : key ∉ d.entries.map (·.1) := by
      rw [Dict.get?, Option.not_isSome_iff_eq_none] at hnone
      exact Dict.lookup_eq_none_iff.mp hnone
    refine writable_of_entries h hkey hv ?_ fun e he => ?_
    · rw [(hperm.map (·.1)).nodup_iff, List.map_cons, List.nodup_cons]
      exact ⟨hnotMem, h.nodup⟩
    · exact List.mem_cons.mp (hperm.mem_iff.mp he)

theorem Value.Writable.erase (h : (Value.dict d).Writable) (key : String) : (Value.dict (d.erase key)).Writable := by
  cases h with
  | dict hkeys hspelled hvalues =>
    have hsub : ∀ e ∈ (d.erase key).entries, e ∈ d.entries := fun e he => (List.mem_filter.mp he).1
    refine .dict (hkeys.sublist (List.filter_sublist.map _)) (fun k hk => hspelled k ?_) fun e he =>
      hvalues e (hsub e he)
    rcases List.mem_append.mp hk with hk | hk
    · obtain ⟨e, he, rfl⟩ := List.mem_map.mp hk
      exact Dict.mem_names_of_mem (hsub e he)
    · exact List.mem_append_right _ hk

end Dict

/-! ## Drafts -/

namespace Draft

/-- Texts and keys can be quoted, and scalars that are taken as they are can be written. -/
inductive IsProper : Draft → Prop
  | text {s : String} : IsQuotable s → IsProper (.text s)
  | written {s : Scalar} : s.IsWritten → IsProper (.written s)
  | list {items : List Draft} : (∀ d ∈ items, IsProper d) → IsProper (.list items)
  | dict {entries : List (String × Draft)} : (∀ e ∈ entries, IsQuotable e.1) → (∀ e ∈ entries, IsProper e.2) →
      IsProper (.dict entries)
  | other {shown : String} : IsProper (.other shown)

theorem exists_of_values {items : List Draft} {vs : List Value} (h : values items = .ok vs) :
    ∀ v ∈ vs, ∃ d ∈ items, d.value = .ok v := by
  induction items generalizing vs with
  | nil =>
    obtain rfl := Except.ok.inj h
    simp
  | cons d items ih =>
    rw [values] at h
    obtain ⟨v, hv, h⟩ := ok_of_bind h
    obtain ⟨ws, hws, h⟩ := ok_of_bind h
    obtain rfl := Except.ok.inj h
    intro w hw
    rcases List.mem_cons.mp hw with rfl | hw
    · exact ⟨d, by simp, hv⟩
    · obtain ⟨d', hd', hvalue⟩ := ih hws w hw
      exact ⟨d', by simp [hd'], hvalue⟩

theorem exists_of_entryValues {entries : List (String × Draft)} {es : List (String × Value)}
    (h : entryValues entries = .ok es) : ∀ e ∈ es, ∃ x ∈ entries, x.1 = e.1 ∧ x.2.value = .ok e.2 := by
  induction entries generalizing es with
  | nil =>
    rw [entryValues] at h
    obtain rfl := Except.ok.inj h
    simp
  | cons x entries ih =>
    obtain ⟨key, d⟩ := x
    rw [entryValues] at h
    obtain ⟨v, hv, h⟩ := ok_of_bind h
    obtain ⟨es', hes, h⟩ := ok_of_bind h
    obtain rfl := Except.ok.inj h
    intro e he
    rcases List.mem_cons.mp he with rfl | he
    · exact ⟨(key, d), by simp, rfl, hv⟩
    · obtain ⟨x, hx, hvalue⟩ := ih hes e he
      exact ⟨x, by simp [hx], hvalue⟩

/-- The value of a proper draft can be written. -/
theorem IsProper.writable {d : Draft} (hd : d.IsProper) {v : Value} (h : d.value = .ok v) : v.Writable := by
  induction hd generalizing v with
  | text hs =>
    rw [value] at h
    obtain rfl := Except.ok.inj h
    exact .scalar (Scalar.isWritten_of hs (by simp))
  | written hs =>
    rw [value] at h
    obtain rfl := Except.ok.inj h
    exact .scalar hs
  | list _ ih =>
    rw [value] at h
    obtain ⟨vs, hvs, h⟩ := ok_of_bind h
    obtain rfl := Except.ok.inj h
    refine .list fun w hw => ?_
    obtain ⟨d, hd, hw⟩ := exists_of_values hvs w hw
    exact ih d hd hw
  | dict hkeys _ ih =>
    rw [value] at h
    obtain ⟨es, hes, h⟩ := ok_of_bind h
    obtain rfl := Except.ok.inj h
    have hmem : ∀ e ∈ es.foldl (fun done e => Dict.assign e.1 e.2 done) [], e ∈ es := fun e he =>
      (Dict.mem_foldl_assign he).resolve_right (by simp)
    refine writable_plain (Dict.nodup_foldl_assign es (l := []) (by simp)) (fun e he => ?_) fun e he => ?_
    · obtain ⟨x, hx, hkey, -⟩ := exists_of_entryValues hes e (hmem e he)
      rw [← hkey]
      exact hkeys x hx
    · obtain ⟨x, hx, -, hvalue⟩ := exists_of_entryValues hes e (hmem e he)
      exact ih x hx hvalue
  | other =>
    rw [value] at h
    contradiction

end Draft

end Plist
end ModuleLink
