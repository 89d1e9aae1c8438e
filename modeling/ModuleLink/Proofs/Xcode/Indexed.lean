import ModuleLink.Proofs.Xcode.Groups

/-!
Graphs whose index lists every object once, under its kind.  Every graph that is read is one, and stays one however it
is changed, as long as no change is to the kind of an object.
-/

namespace ModuleLink
namespace Xcode

open Plist

/-! ## Fields of new objects -/

section Fields

variable {o : Object}

theorem isa_of_field? {isa : String} (hfield : o.field? "isa" = some (.scalar ⟨isa, none⟩))
    (hhead : isa.toList.head? ≠ some '"') : o.isa = isa := by
  rw [Object.isa, Object.text?, hfield]
  exact Scalar.value_of_head hhead

theorem text?_of_draft {key s : String} {v : Value} (hdraft : (Draft.text s).value = .ok v)
    (hfield : o.field? key = some v) : o.text? key = some s := by
  obtain rfl := Except.ok.inj hdraft
  rw [Object.text?, hfield]
  exact congrArg some (Scalar.value_of s none)

end Fields

namespace Graph

variable {g g' : Graph} {o : Object} {source : String} {text : List Char}

/-! ## Graphs that are read -/

theorem isIndexed_of_load (h : Graph.load source text = .ok g) : g.IsIndexed := by
  obtain ⟨root, tables, last, os, -, -, hos, -, rfl⟩ := load_eq_ok_iff.mp h
  refine ⟨?_, listed_foldl os⟩
  show (os.map (·.id)).Nodup
  rw [(dict_of_objectsOf hos).1]
  exact Dict.keys_ofMembers_nodup last.members

/-! ## Objects of a kind -/

/-- The index finds every object of a kind. -/
theorem IsIndexed.objectsOf (h : g.IsIndexed) (isa : String) :
    g.objectsOf isa = .ok (g.objects.filter fun o => o.isa == isa) := by
  rw [Graph.objectsOf, ← listed, h.index, idsOfKind, mapM_eq_ok_iff, List.forall₂_map_left_iff, List.forall₂_same]
  intro o ho
  rw [get?_of_mem h.nodup (List.mem_filter.mp ho).1]

/-! ## References -/

/-- An object has another value under a key that is not its kind. -/
theorem IsIndexed.apply_writing (h : g.IsIndexed) {c : Change} {key : String} (hc : c.writes? = some key)
    (hkey : key ≠ "isa") : (c.apply g).IsIndexed := by
  rcases Change.apply_eq_or_store hc g with hsame | ⟨o, ho, v, hchanged⟩
  · rwa [hsame]
  · have hstored : (g.store (o.setField key v)).IsIndexed := h.store ho rfl (Object.isa_setField hkey v)
    rw [hchanged]
    exact hstored.touch o.id

theorem IsIndexed.appendRef (h : g.IsIndexed) {key : String} (hkey : key ≠ "isa") (owner ref : String)
    (comment : Option String) : (g.appendRef owner key ref comment).1.IsIndexed :=
  h.apply_writing (c := .appendRef owner key ref comment) rfl hkey

/-- Another reference changes objects only. -/
theorem appendRef_eq (g : Graph) (owner key ref : String) (comment : Option String) :
    (g.appendRef owner key ref comment).1 = { g with
      objects := (g.appendRef owner key ref comment).1.objects
      touched := (g.appendRef owner key ref comment).1.touched } := by
  rcases g.appendRef_eq_or_store owner key ref comment with hsame | ⟨o, -, -, hchanged⟩
  · rw [hsame]
  · rw [hchanged, touch_eq, store]

/-! ## New objects -/

/-- An id that is free is the one that its seed gives. -/
theorem newId_of_free {seed : String} (hfree : g.get? (Digest.stableId seed) = none) :
    g.newId seed = Digest.stableId seed := by
  have htaken : g.contains (Digest.stableId seed) = false := by rw [contains, hfree]; rfl
  rw [newId, freshId]
  simp only [htaken, Bool.false_eq_true, if_false]

section Made

variable {isa seed : String} {fields : List (String × Draft)} {comment : Option String}

/-- An object is made of whatever fields have values. -/
theorem exists_addObject (g : Graph) (isa : String) (fields : List (String × Draft)) (comment : Option String)
    (seed : String) (hnodup : (fields.map (·.1)).Nodup) (hvalues : ∀ f ∈ fields, ∃ v, f.2.value = .ok v) :
    ∃ g' o, g.addObject isa fields comment seed = .ok (g', o) := by
  have hunique := Dict.foldl_assign_of_nodup (f := Prod.fst) Prod.snd hnodup
  rw [List.map_id'' (fun f => rfl)] at hunique
  obtain ⟨⟨g', o⟩, hmade⟩ : ∃ made, g.addObject isa fields comment seed = .ok made := by
    rw [Graph.addObject, hunique]
    refine exists_bind_eq_ok (exists_mapM_eq_ok fun f hf => ?_) fun values => ⟨_, rfl⟩
    obtain ⟨v, hv⟩ := hvalues f (List.mem_mergeSort.mp hf)
    exact ⟨(f.1, v), bind_of_ok hv _⟩
  exact ⟨g', o, hmade⟩

/-- A new object has an id that no other has, and comes behind all others. -/
theorem objects_addObject (hadd : g.addObject isa fields comment seed = .ok (g', o)) :
    o.id ∉ g.ids ∧ g'.objects = g.objects ++ [o] := by
  obtain ⟨values, -, hmade⟩ := ok_of_bind hadd
  obtain ⟨rfl, rfl⟩ := Prod.mk.inj (Except.ok.inj hmade)
  exact ⟨newId_notMem g seed, rfl⟩

/-- The object that is made has the kind and a free id, and the graph has gained it. -/
theorem eq_of_addObject (hadd : g.addObject isa fields comment seed = .ok (g', o)) (hisa : "isa" ∉ fields.map (·.1))
    (hhead : isa.toList.head? ≠ some '"') : o.id = g.newId seed ∧ o.isa = isa ∧ g' = { g with
      objects := g.objects ++ [o]
      index := indexInsert isa o.id g.index
      added := g.added ++ [o.id] } := by
  obtain ⟨values, hmapM, hmade⟩ := ok_of_bind hadd
  obtain ⟨rfl, rfl⟩ := Prod.mk.inj (Except.ok.inj hmade)
  have hkeys : "isa" ∉ values.map (·.1) := by
    rw [(values_of_mapM hmapM).1, ((List.mergeSort_perm _ _).map _).mem_iff, Dict.mem_map_fst_foldl_assign]
    exact not_or_intro hisa List.not_mem_nil
  refine ⟨rfl, isa_of_field? ?_ hhead, rfl⟩
  show Dict.get? _ "isa" = _
  rw [get?_foldl_set_of_notMem hkeys]
  rfl

theorem IsIndexed.addObject (h : g.IsIndexed) (hadd : g.addObject isa fields comment seed = .ok (g', o))
    (hisa : "isa" ∉ fields.map (·.1)) (hhead : isa.toList.head? ≠ some '"') : g'.IsIndexed := by
  obtain ⟨-, hkind, hg'⟩ := eq_of_addObject hadd hisa hhead
  obtain ⟨hfree, hobjects⟩ := objects_addObject hadd
  exact h.append hfree hobjects (by rw [hg', hkind])

end Made

/-! ## Runs -/

section Runs

variable {c : Change} {changes : List Change} {g₀ : Graph}

/-- One change keeps the index exact.  All changes to the fields of objects are one case, since they write a key that is
not the kind. -/
theorem IsIndexed.apply (h : g.IsIndexed) (hc : c.LeavesKinds) : (c.apply g).IsIndexed := by
  cases hkey : c.writes? with
  | some key => exact h.apply_writing hkey (hc.ne_isa hkey)
  | none =>
    cases c with
    | add isa fields comment seed =>
      obtain ⟨hword, hfields⟩ := hc
      have hhead : isa.toList.head? ≠ some '"' := fun hquote =>
        absurd (hword '"' (List.mem_of_head? hquote)) (by decide)
      have hisa : "isa" ∉ fields.map (·.1) := fun hin => by
        obtain ⟨f, hf, hkind⟩ := List.mem_map.mp hin
        exact hfields f hf hkind
      simp only [Change.apply]
      split
      next g' o hadd => exact h.addObject hadd hisa hhead
      · exact h
    | remove id => exact h.removeObject id
    | touch id => exact h.touch id
    | appendRef | removeRef | addSetting | removeSetting => contradiction

theorem IsIndexed.changed (h : g.IsIndexed) (hchanges : ∀ c ∈ changes, c.LeavesKinds) :
    (g.changed changes).IsIndexed := by
  induction changes generalizing g with
  | nil => exact h
  | cons c changes ih => exact ih (h.apply (hchanges c (by simp))) fun d hd => hchanges d (by simp [hd])

/-- However often a graph was changed since it was read, the objects of its table have ids of their own, and the index
finds those of every kind in the order of the table.  So taking an object out never fails, and a new object takes the
place of no other. -/
theorem objectsOf_changed (hload : Graph.load source text = .ok g₀) (hchanges : ∀ c ∈ changes, c.LeavesKinds) :
    (g₀.changed changes).ids.Nodup ∧
    (∀ isa, (g₀.changed changes).objectsOf isa = .ok ((g₀.changed changes).objects.filter fun o => o.isa == isa)) ∧
    (∀ id, ((g₀.changed changes).removeObject id).2 = .ok ((g₀.changed changes).contains id)) ∧
    ∀ isa fields comment seed g o, (g₀.changed changes).addObject isa fields comment seed = .ok (g, o) →
      o.id ∉ (g₀.changed changes).ids ∧ g.objects = (g₀.changed changes).objects ++ [o] := by
  have hindexed := (isIndexed_of_load hload).changed hchanges
  exact ⟨hindexed.nodup, hindexed.objectsOf, hindexed.removeObject_snd, fun _ _ _ _ _ _ => objects_addObject⟩

/-- A project with two objects of one kind and one between them that has none. -/
def mixedKinds : List Char := "\x7bobjects=\x7bA=\x7bisa=Kind;\x7d;B=\x7b\x7d;C=\x7bisa=Kind;\x7d;\x7d;\x7d".toList

/-- The first object goes, and another one of its kind comes, goes and comes again. -/
def kindReplaced : List Change :=
  [.remove "A", .add "Kind" [] none "s", .appendRef "C" "children" "B" none, .remove "03C7C0ACE395D80182DB07AE",
    .add "Kind" [("name", .text "s")] none "s"]

theorem kindReplaced_leavesKinds : ∀ c ∈ kindReplaced, c.LeavesKinds := by
  have hword : ∀ x ∈ "Kind".toList, Text.isWord x = true := List.all_eq_true.mp (by decide)
  simp only [kindReplaced, List.forall_mem_cons]
  exact ⟨nofun, ⟨hword, by simp⟩, by simp [Change.LeavesKinds, Change.writes?], nofun, ⟨hword, by simp⟩, nofun⟩

theorem objectsOf_changed_mixedKinds : ∃ g₀, Graph.load "project" mixedKinds = .ok g₀ ∧
    (∀ c ∈ kindReplaced, c.LeavesKinds) ∧ (g₀.changed kindReplaced).ids.Nodup ∧
    (∃ os, (g₀.changed kindReplaced).objectsOf "Kind" = .ok os ∧ os.map (·.id) = ["C", "03C7C0ACE395D80182DB07AE"]) ∧
    ∃ os, (g₀.changed kindReplaced).objectsOf "" = .ok os ∧ os.map (·.id) = ["B"] := by
  have hstate : (Graph.load "project" mixedKinds).toOption.any (fun g =>
      idsOfKind (g.changed kindReplaced).objects "Kind" == ["C", "03C7C0ACE395D80182DB07AE"] &&
      idsOfKind (g.changed kindReplaced).objects "" == ["B"]) = true := by decide +kernel
  cases hload : Graph.load "project" mixedKinds with
  | error f =>
    rw [hload] at hstate
    contradiction
  | ok g₀ =>
    simp only [hload, Except.toOption, Option.any_some, Bool.and_eq_true, beq_iff_eq] at hstate
    obtain ⟨hnodup, hobjects, -⟩ := objectsOf_changed hload kindReplaced_leavesKinds
    exact ⟨g₀, rfl, kindReplaced_leavesKinds, hnodup, ⟨_, hobjects "Kind", hstate.1⟩, ⟨_, hobjects "", hstate.2⟩⟩

end Runs

end Graph
end Xcode
end ModuleLink
