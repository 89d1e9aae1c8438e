import Mathlib.Data.List.Induction
import Mathlib.Data.List.Nodup
import ModuleLink.Plist.Scan
import ModuleLink.Proofs.Entries

/-!
Dictionaries as lists of entries, and the dictionary that the members of a text make up.
-/

namespace ModuleLink
namespace Plist
namespace Dict

/-! ## Assigning -/

section Assign

variable {β : Type} {key k : String} {v w : β} {l : List (String × β)}

theorem map_fst_assign (key : String) (v : β) (l : List (String × β)) :
    (assign key v l).map (·.1) = if key ∈ l.map (·.1) then l.map (·.1) else l.map (·.1) ++ [key] := by
  induction l with
  | nil => rfl
  | cons e l ih =>
    obtain ⟨k, w⟩ := e
    rw [assign]
    by_cases hk : k = key
    · subst hk
      simp
    · rw [if_neg hk, List.map_cons, ih]
      by_cases hmem : key ∈ l.map (·.1)
      · rw [if_pos hmem, if_pos (by simp [hmem]), List.map_cons]
      · rw [if_neg hmem, if_neg (by simp only [List.map_cons, List.mem_cons, not_or]; exact ⟨Ne.symm hk, hmem⟩)]
        rfl

theorem nodup_assign (key : String) (v : β) (h : (l.map (·.1)).Nodup) : ((assign key v l).map (·.1)).Nodup := by
  rw [map_fst_assign]
  split
  · exact h
  next hmem => exact List.nodup_append.mpr ⟨h, List.nodup_singleton _, by
      intro a ha b hb
      obtain rfl := List.mem_singleton.mp hb
      rintro rfl
      exact hmem ha⟩

theorem mem_map_fst_assign : k ∈ (assign key v l).map (·.1) ↔ k = key ∨ k ∈ l.map (·.1) := by
  rw [map_fst_assign]
  split
  next hmem =>
    refine ⟨.inr, ?_⟩
    rintro (rfl | h)
    · exact hmem
    · exact h
  · rw [List.mem_append, List.mem_singleton, or_comm]

theorem mem_assign {e : String × β} (h : e ∈ assign key v l) : e = (key, v) ∨ (e ∈ l) := by
  induction l with
  | nil => exact .inl (List.mem_singleton.mp h)
  | cons x l ih =>
    obtain ⟨k, w⟩ := x
    rw [assign] at h
    by_cases hk : k = key
    · rw [if_pos hk] at h
      rcases List.mem_cons.mp h with rfl | h
      · rw [hk]
        exact .inl rfl
      · exact .inr (by simp [h])
    · rw [if_neg hk] at h
      rcases List.mem_cons.mp h with rfl | h
      · exact .inr (by simp)
      · rcases ih h with h | h
        · exact .inl h
        · exact .inr (by simp [h])

theorem lookup_assign_self (key : String) (v : β) (l : List (String × β)) : (assign key v l).lookup key = some v := by
  induction l with
  | nil => exact Entries.lookup_cons_self key v []
  | cons e l ih =>
    obtain ⟨k, w⟩ := e
    rw [assign]
    by_cases hk : k = key
    · rw [if_pos hk, hk]
      exact Entries.lookup_cons_self key v l
    · rw [if_neg hk, Entries.lookup_cons_of_ne (Ne.symm hk), ih]

theorem lookup_assign_of_ne (h : k ≠ key) (v : β) (l : List (String × β)) :
    (assign key v l).lookup k = l.lookup k := by
  induction l with
  | nil => exact Entries.lookup_cons_of_ne h v []
  | cons e l ih =>
    obtain ⟨k', w⟩ := e
    rw [assign]
    by_cases hk : k' = key
    · subst hk
      rw [if_pos rfl, Entries.lookup_cons_of_ne h, Entries.lookup_cons_of_ne h]
    · rw [if_neg hk]
      by_cases hkk : k = k'
      · subst hkk
        rw [Entries.lookup_cons_self, Entries.lookup_cons_self]
      · rw [Entries.lookup_cons_of_ne hkk, Entries.lookup_cons_of_ne hkk, ih]

theorem assign_of_notMem (h : key ∉ l.map (·.1)) (v : β) : assign key v l = l ++ [(key, v)] := by
  induction l with
  | nil => rfl
  | cons e l ih =>
    obtain ⟨k, w⟩ := e
    simp only [List.map_cons, List.mem_cons, not_or] at h
    rw [assign, if_neg (Ne.symm h.1), ih h.2]
    rfl

/-- Changing the values after an assignment is changing them before. -/
theorem map_assign {γ : Type} (f : String → β → γ) (key : String) (v : β) (l : List (String × β)) :
    (assign key v l).map (fun e => (e.1, f e.1 e.2)) = assign key (f key v) (l.map fun e => (e.1, f e.1 e.2)) := by
  induction l with
  | nil => rfl
  | cons e l ih =>
    obtain ⟨k, w⟩ := e
    rw [List.map_cons, assign, assign]
    by_cases hk : k = key
    · subst hk
      rw [if_pos rfl, if_pos rfl, List.map_cons]
    · rw [if_neg hk, if_neg hk, List.map_cons, ih]

theorem lookup_of_mem (hnodup : (l.map (·.1)).Nodup) (h : (k, v) ∈ l) : l.lookup k = some v := by
  induction l with
  | nil => contradiction
  | cons e l ih =>
    obtain ⟨k', w⟩ := e
    rw [List.map_cons, List.nodup_cons] at hnodup
    rcases List.mem_cons.mp h with heq | hmem
    · obtain ⟨rfl, rfl⟩ := Prod.mk.inj heq
      exact Entries.lookup_cons_self k v l
    · have hne : k ≠ k' := by
        rintro rfl
        exact hnodup.1 (List.mem_map_of_mem (f := (·.1)) hmem)
      rw [Entries.lookup_cons_of_ne hne, ih hnodup.2 hmem]

theorem mem_of_lookup (h : l.lookup k = some v) : (k, v) ∈ l := by
  induction l with
  | nil => contradiction
  | cons e l ih =>
    obtain ⟨k', w⟩ := e
    by_cases hk : k = k'
    · subst hk
      rw [Entries.lookup_cons_self] at h
      rw [Option.some.inj h]
      exact List.mem_cons_self
    · rw [Entries.lookup_cons_of_ne hk] at h
      exact List.mem_cons_of_mem _ (ih h)

theorem lookup_eq_none_iff : l.lookup k = none ↔ k ∉ l.map (·.1) := by
  constructor
  · intro h hmem
    obtain ⟨e, he, rfl⟩ := List.mem_map.mp hmem
    induction l with
    | nil => contradiction
    | cons x l ih =>
      obtain ⟨k', w⟩ := x
      by_cases hk : e.1 = k'
      · subst hk
        rw [Entries.lookup_cons_self] at h
        contradiction
      · rw [Entries.lookup_cons_of_ne hk] at h
        rcases List.mem_cons.mp he with rfl | he
        · exact hk rfl
        · exact ih he h (List.mem_map_of_mem he)
  · intro h
    cases hl : l.lookup k with
    | none => rfl
    | some v => exact absurd (List.mem_map_of_mem (f := (·.1)) (mem_of_lookup hl)) h

theorem nodup_foldl_assign (xs : List (String × β)) (h : (l.map (·.1)).Nodup) :
    ((xs.foldl (fun done e => assign e.1 e.2 done) l).map (·.1)).Nodup := by
  induction xs generalizing l with
  | nil => exact h
  | cons x xs ih => exact ih (nodup_assign _ _ h)

theorem mem_foldl_assign {xs : List (String × β)} {e : String × β}
    (h : e ∈ xs.foldl (fun done e => assign e.1 e.2 done) l) : e ∈ xs ∨ e ∈ l := by
  induction xs generalizing l with
  | nil => exact .inr h
  | cons x xs ih =>
    rcases ih h with h | h
    · exact .inl (List.mem_cons_of_mem _ h)
    · rcases mem_assign h with rfl | h
      · exact .inl List.mem_cons_self
      · exact .inr h

/-- Assigning under different keys is listing. -/
theorem foldl_assign_of_nodup {α : Type} {f : α → String} (g : α → β) {xs : List α} (h : (xs.map f).Nodup) :
    xs.foldl (fun done x => assign (f x) (g x) done) [] = xs.map fun x => (f x, g x) := by
  induction xs using List.reverseRecOn with
  | nil => rfl
  | append_singleton xs x ih =>
    rw [List.map_append, List.map_singleton] at h
    have hx : f x ∉ xs.map f := fun hmem =>
      (List.nodup_append.mp h).2.2 _ hmem _ (List.mem_singleton_self _) rfl
    rw [List.foldl_append, ih (List.nodup_append.mp h).1, List.foldl_cons, List.foldl_nil,
      assign_of_notMem (by simpa [List.map_map, Function.comp_def] using hx), List.map_append]
    rfl

section Fold

variable {α : Type} {f : α → String} {xs : List α} {x : α}

theorem mem_map_fst_foldl_assign (g : α → β) :
    k ∈ (xs.foldl (fun done x => assign (f x) (g x) done) l).map (·.1) ↔ k ∈ xs.map f ∨ k ∈ l.map (·.1) := by
  induction xs generalizing l with
  | nil => simp
  | cons x xs ih => rw [List.foldl_cons, ih, mem_map_fst_assign, List.map_cons, List.mem_cons, or_left_comm, or_assoc]

theorem lookup_foldl_assign_of_notMem (g : α → β) (h : k ∉ xs.map f) :
    (xs.foldl (fun done x => assign (f x) (g x) done) l).lookup k = l.lookup k := by
  induction xs generalizing l with
  | nil => rfl
  | cons x xs ih =>
    rw [List.map_cons, List.mem_cons, not_or] at h
    rw [List.foldl_cons, ih h.2, lookup_assign_of_ne h.1]

/-- What is assigned under a key of its own stays. -/
theorem lookup_foldl_assign_of_mem (g : α → β) (h : (xs.map f).Nodup) (hx : x ∈ xs) :
    (xs.foldl (fun done x => assign (f x) (g x) done) l).lookup (f x) = some (g x) := by
  induction xs generalizing l with
  | nil => contradiction
  | cons y xs ih =>
    obtain ⟨hy, hxs⟩ := List.nodup_cons.mp h
    rw [List.foldl_cons]
    rcases List.mem_cons.mp hx with rfl | hx
    · rw [lookup_foldl_assign_of_notMem g hy, lookup_assign_self]
    · exact ih hxs hx

/-- Of all that is assigned under one key the last counts. -/
theorem lookup_foldl_assign (g : α → β) (xs : List α) (k : String) :
    (xs.foldl (fun done x => assign (f x) (g x) done) []).lookup k = (xs.reverse.find? fun x => f x == k).map g := by
  induction xs using List.reverseRecOn with
  | nil => rfl
  | append_singleton xs x ih =>
    rw [List.foldl_append, List.foldl_cons, List.foldl_nil, List.reverse_concat, List.find?_cons]
    by_cases hk : f x = k
    · rw [hk, lookup_assign_self, beq_self_eq_true]
      rfl
    · rw [lookup_assign_of_ne (Ne.symm hk), ih, beq_false_of_ne hk]

/-- The keys do not depend on what is assigned. -/
theorem map_fst_foldl_assign {γ : Type} (g : α → β) (g' : α → γ) (xs : List α) :
    (xs.foldl (fun done x => assign (f x) (g x) done) []).map (·.1) =
      (xs.foldl (fun done x => assign (f x) (g' x) done) []).map (·.1) := by
  induction xs using List.reverseRecOn with
  | nil => rfl
  | append_singleton xs x ih =>
    simp only [List.foldl_append, List.foldl_cons, List.foldl_nil, map_fst_assign, ih]

end Fold

end Assign

/-! ## Members -/

section Members

variable {ms : List Member}

@[simp] theorem ofMembers_nil : ofMembers [] = {} := rfl

@[simp] theorem ofMembers_append_singleton (ms : List Member) (m : Member) :
    ofMembers (ms ++ [m]) = (ofMembers ms).read m.key m.value := by
  rw [ofMembers, List.foldl_append]
  rfl

theorem entries_ofMembers (ms : List Member) :
    (ofMembers ms).entries = ms.foldl (fun done m => assign m.key.value m.value done) [] := by
  induction ms using List.reverseRecOn with
  | nil => rfl
  | append_singleton ms m ih =>
    rw [ofMembers_append_singleton, Dict.read, ih, List.foldl_append]
    rfl

theorem keys_ofMembers_nodup (ms : List Member) : (ofMembers ms).keys.Nodup := by
  induction ms using List.reverseRecOn with
  | nil => exact List.nodup_nil
  | append_singleton ms m ih =>
    rw [ofMembers_append_singleton]
    exact nodup_assign _ _ ih

theorem mem_keys_ofMembers {k : String} : k ∈ (ofMembers ms).keys ↔ ∃ m ∈ ms, m.key.value = k := by
  induction ms using List.reverseRecOn with
  | nil => simp [keys]
  | append_singleton ms m ih =>
    rw [ofMembers_append_singleton]
    refine mem_map_fst_assign.trans ?_
    rw [show k ∈ (ofMembers ms).entries.map (·.1) ↔ _ from ih]
    simp only [List.mem_append, List.mem_singleton, or_and_right, exists_or, exists_eq_left]
    rw [or_comm, eq_comm]

/-- What was read has the keys that it remembers. -/
theorem map_fst_spellings (ms : List Member) : (ofMembers ms).spellings.map (·.1) = (ofMembers ms).keys := by
  induction ms using List.reverseRecOn with
  | nil => rfl
  | append_singleton ms m ih =>
    rw [ofMembers_append_singleton, Dict.read, keys, map_fst_assign, map_fst_assign, ih]
    rfl

/-- Every entry is that of a member. -/
theorem mem_ofMembers {k : String} {v : Value} (h : (k, v) ∈ (ofMembers ms).entries) :
    ∃ m ∈ ms, m.key.value = k ∧ m.value = v := by
  induction ms using List.reverseRecOn with
  | nil => contradiction
  | append_singleton ms m ih =>
    rw [ofMembers_append_singleton] at h
    rcases mem_assign h with heq | h
    · obtain ⟨rfl, rfl⟩ := Prod.mk.inj heq
      exact ⟨m, by simp, rfl, rfl⟩
    · obtain ⟨m', hm', hkey⟩ := ih h
      exact ⟨m', by simp [hm'], hkey⟩

/-- The key of every entry is written as some member writes it. -/
theorem spelling_ofMembers {k : String} (h : ∃ m ∈ ms, m.key.value = k) :
    ∃ m ∈ ms, m.key.value = k ∧ (ofMembers ms).spelling k = m.key := by
  induction ms using List.reverseRecOn with
  | nil =>
    obtain ⟨m, hm, -⟩ := h
    contradiction
  | append_singleton ms m ih =>
    rw [ofMembers_append_singleton]
    by_cases hk : m.key.value = k
    · refine ⟨m, by simp, hk, ?_⟩
      rw [spelling, Dict.read, hk, lookup_assign_self]
      rfl
    · obtain ⟨m₀, hm₀, hkey⟩ := h
      rcases List.mem_append.mp hm₀ with hm₀ | hm₀
      · obtain ⟨m', hm', hkey', hspelling⟩ := ih ⟨m₀, hm₀, hkey⟩
        refine ⟨m', by simp [hm'], hkey', ?_⟩
        rw [spelling, Dict.read, lookup_assign_of_ne (Ne.symm hk)]
        exact hspelling
      · obtain rfl := List.mem_singleton.mp hm₀
        exact absurd hkey hk

/-- Members with different keys are the entries. -/
theorem ofMembers_of_nodup (h : (ms.map (·.key.value)).Nodup) :
    ofMembers ms = ⟨ms.map fun m => (m.key.value, m.value), ms.map fun m => (m.key.value, m.key)⟩ := by
  induction ms using List.reverseRecOn with
  | nil => rfl
  | append_singleton ms m ih =>
    rw [List.map_append, List.map_singleton] at h
    have hm : m.key.value ∉ ms.map (·.key.value) := fun hmem =>
      (List.nodup_append.mp h).2.2 _ hmem _ (List.mem_singleton_self _) rfl
    rw [ofMembers_append_singleton, ih (List.nodup_append.mp h).1, Dict.read]
    rw [assign_of_notMem (by simpa [List.map_map, Function.comp_def] using hm),
      assign_of_notMem (by simpa [List.map_map, Function.comp_def] using hm), List.map_append, List.map_append]
    rfl

end Members

end Dict
end Plist
end ModuleLink
