import Mathlib
import ModuleLink.Proofs.Plist.Changes
import ModuleLink.Proofs.Xcode.Ids

/-!
Changes to a graph one by one and in runs, and what holds of a graph however it was changed: what is in it, that its
index lists all of it, what has become of the objects that were read, and that everything can be written.
-/

namespace ModuleLink
namespace Xcode

open Plist

/-! ## Changes -/

/-- A change to a graph. -/
inductive Change where
  | add (isa : String) (fields : List (String × Draft)) (comment : Option String) (seed : String)
  | remove (id : String)
  | touch (id : String)
  | appendRef (owner key ref : String) (comment : Option String)
  | removeRef (owner key ref : String)
  | addSetting (configuration name value inherited : String)
  | removeSetting (configuration name value : String)

/-- The kind can stand in a marker line. -/
structure IsKindName (isa : String) : Prop where
  nonempty : isa.toList ≠ []
  word : ∀ c ∈ isa.toList, Text.isWord c = true

namespace Change

/-- What the change is made with can be written, and it does not write the kind of an object. -/
def IsProper : Change → Prop
  | .add isa fields comment _ =>
    IsKindName isa ∧ (∀ f ∈ fields, f.1 ≠ "isa" ∧ IsQuotable f.1 ∧ f.2.IsProper) ∧ ∀ c, comment = some c → IsComment c
  | .remove _ => True
  | .touch _ => True
  | .appendRef _ key ref comment =>
    key ≠ "isa" ∧ IsQuotable key ∧ IsPlain ref ∧ ∀ c, comment = some c → IsComment c
  | .removeRef _ key _ => key ≠ "isa" ∧ IsQuotable key
  | .addSetting _ name value inherited => IsQuotable name ∧ IsQuotable value ∧ IsQuotable inherited
  | .removeSetting _ name _ => IsQuotable name

/-- The key of an object that the change writes. -/
def writes? : Change → Option String
  | .appendRef _ key _ _ | .removeRef _ key _ => some key
  | .addSetting .. | .removeSetting .. => some "buildSettings"
  | .add .. | .remove _ | .touch _ => none

/-- A new object is of a kind made of word characters, and none of its fields gives it another one.  A change to an
object is not to its kind. -/
def LeavesKinds : Change → Prop
  | .add isa fields _ _ => (∀ x ∈ isa.toList, Text.isWord x = true) ∧ ∀ f ∈ fields, f.1 ≠ "isa"
  | c => c.writes? ≠ some "isa"

theorem LeavesKinds.ne_isa {c : Change} {key : String} (hc : c.LeavesKinds) (hkey : c.writes? = some key) :
    key ≠ "isa" := by
  cases c with
  | add | remove | touch => contradiction
  | appendRef | removeRef | addSetting | removeSetting => exact fun heq => hc (hkey.trans (congrArg some heq))

theorem IsProper.leavesKinds {c : Change} (hc : c.IsProper) : c.LeavesKinds := by
  cases c with
  | add isa fields comment seed => exact ⟨hc.1.word, fun f hf => (hc.2.1 f hf).1⟩
  | remove | touch => exact nofun
  | appendRef | removeRef => exact fun hkey => hc.1 (Option.some.inj hkey)
  | addSetting | removeSetting => exact fun hkey => absurd (Option.some.inj hkey) (by decide)

/-- The graph after a change.  A change that ends in a fault leaves the graph it had come to. -/
def apply (g : Graph) : Change → Graph
  | .add isa fields comment seed =>
    match g.addObject isa fields comment seed with
    | .ok (g', _) => g'
    | .error _ => g
  | .remove id => (g.removeObject id).1
  | .touch id => g.touch id
  | .appendRef owner key ref comment => (g.appendRef owner key ref comment).1
  | .removeRef owner key ref => (g.removeRef owner key ref).1
  | .addSetting configuration name value inherited => (g.addSetting configuration name value inherited).1
  | .removeSetting configuration name value => (g.removeSetting configuration name value).1

end Change

/-! ### What a change to fields does -/

/-- A reference goes to the end of a list of its owner, unless there is no owner or the reference is in the list. -/
theorem Graph.appendRef_eq_or_store (g : Graph) (owner key ref : String) (comment : Option String) :
    g.appendRef owner key ref comment = (g, false) ∨ ∃ o, owner = o.id ∧ g.get? o.id = some o ∧
      g.appendRef owner key ref comment = ((g.store (o.appendRef key ⟨ref, comment⟩)).touch o.id, true) := by
  rw [Graph.appendRef]
  split
  · exact .inl rfl
  next o hget =>
    obtain ⟨-, rfl⟩ := Graph.get?_mem hget
    split
    · exact .inl rfl
    · exact .inr ⟨o, rfl, hget, rfl⟩

/-- A reference goes out of a list of its owner, if it is in there. -/
theorem Graph.removeRef_eq_or_store (g : Graph) (owner key ref : String) :
    g.removeRef owner key ref = (g, false) ∨ ∃ o, owner = o.id ∧ g.get? o.id = some o ∧ o.hasRef key ref = true ∧
      g.removeRef owner key ref = ((g.store (o.removeRef key ref)).touch o.id, true) := by
  rw [Graph.removeRef]
  split
  · exact .inl rfl
  next o hget =>
    obtain ⟨-, rfl⟩ := Graph.get?_mem hget
    split
    next href => exact .inr ⟨o, rfl, hget, href, rfl⟩
    · exact .inl rfl

/-- An object with settings has changed ones, if there is such an object and the change does not refuse its settings. -/
theorem Graph.changeSettings_eq_or_store (g : Graph) (configuration : String)
    (change : Dict Value → Option (Dict Value)) : g.changeSettings configuration change = (g, false) ∨
      ∃ o settings changed, configuration = o.id ∧ g.get? o.id = some o ∧
        o.field? "buildSettings" = some (.dict settings) ∧ change settings = some changed ∧
        g.changeSettings configuration change =
          ((g.store (o.setField "buildSettings" (.dict changed))).touch o.id, true) := by
  rw [Graph.changeSettings]
  split
  · exact .inl rfl
  next o hget =>
    obtain ⟨-, rfl⟩ := Graph.get?_mem hget
    split
    next settings hsettings =>
      split
      next changed hchange => exact .inr ⟨o, settings, changed, rfl, hget, hsettings, hchange, rfl⟩
      · exact .inl rfl
    · exact .inl rfl

/-- A change that writes a key leaves the graph as it is, or one object has another value under the key and is
touched. -/
theorem Change.apply_eq_or_store {c : Change} {key : String} (hc : c.writes? = some key) (g : Graph) :
    c.apply g = g ∨ ∃ o ∈ g.objects, ∃ v, c.apply g = (g.store (o.setField key v)).touch o.id := by
  -- Both changes to settings are one with a function of its own.
  have hsettings (configuration : String) (change : Dict Value → Option (Dict Value)) :
      (g.changeSettings configuration change).1 = g ∨ ∃ o ∈ g.objects, ∃ v,
        (g.changeSettings configuration change).1 = (g.store (o.setField "buildSettings" v)).touch o.id := by
    rcases g.changeSettings_eq_or_store configuration change with hsame | ⟨o, _, changed, -, hget, -, -, hchanged⟩
    · exact .inl (congrArg Prod.fst hsame)
    · exact .inr ⟨o, (Graph.get?_mem hget).1, .dict changed, congrArg Prod.fst hchanged⟩
  cases c with
  | add | remove | touch => contradiction
  | appendRef owner key ref comment =>
    obtain rfl := Option.some.inj hc
    rcases g.appendRef_eq_or_store owner key ref comment with hsame | ⟨o, -, hget, hchanged⟩
    · exact .inl (congrArg Prod.fst hsame)
    · exact .inr ⟨o, (Graph.get?_mem hget).1, _, congrArg Prod.fst hchanged⟩
  | removeRef owner key ref =>
    obtain rfl := Option.some.inj hc
    rcases g.removeRef_eq_or_store owner key ref with hsame | ⟨o, -, hget, href, hchanged⟩
    · exact .inl (congrArg Prod.fst hsame)
    · rw [Object.removeRef, if_pos href] at hchanged
      exact .inr ⟨o, (Graph.get?_mem hget).1, _, congrArg Prod.fst hchanged⟩
  | addSetting | removeSetting =>
    obtain rfl := Option.some.inj hc
    exact hsettings ..

/-! ### Runs of changes -/

/-- The graph after changes, one after the other. -/
def Graph.changed (g : Graph) (changes : List Change) : Graph := changes.foldl Change.apply g

/-! ## What can be written -/

/-- The object can be written and read back. -/
structure Object.IsProper (o : Object) : Prop where
  id : IsPlain o.id
  comment : ∀ c, o.comment = some c → IsComment c
  fields : (Value.dict o.fields).Writable

theorem isQuotable_of_word {s : String} (h : ∀ c ∈ s.toList, Text.isWord c = true) : IsQuotable s := by
  intro _ hin
  exact absurd (h '/' (hin.subset (by simp))) (by decide)

theorem isQuotable_isa : IsQuotable "isa" := isQuotable_of_word (List.all_eq_true.mp (by decide))

theorem isQuotable_buildSettings : IsQuotable "buildSettings" := isQuotable_of_word (List.all_eq_true.mp (by decide))

namespace Object

variable {o : Object} {key : String} {v : Value}

theorem isa_setField (h : key ≠ "isa") (v : Value) : (o.setField key v).isa = o.isa := by
  have hfield : (o.setField key v).field? "isa" = o.field? "isa" := Dict.lookup_assign_of_ne (Ne.symm h) v _
  rw [isa, isa, text?, text?, hfield]

theorem IsProper.setField (h : o.IsProper) (hkey : IsQuotable key) (hv : v.Writable) : (o.setField key v).IsProper :=
  ⟨h.id, h.comment, h.fields.set hkey hv⟩

theorem IsProper.listField (h : o.IsProper) (key : String) : ∀ w ∈ o.listField key, w.Writable := by
  rw [Object.listField]
  split
  next items hitems => exact (h.fields.get? hitems).items
  · simp

end Object

/-! ## Graphs with an index -/

/-- No two objects have one id, and the index lists the ids of every kind in the order of the objects. -/
structure Graph.IsIndexed (g : Graph) : Prop where
  nodup : g.ids.Nodup
  index : ∀ k, listed g.index k = idsOfKind g.objects k

section Index

variable {g g' : Graph} {o o' p : Object} {id : String}

theorem ids_store (g : Graph) (o : Object) : (g.store o).ids = g.ids := by
  simp only [Graph.ids, Graph.store, List.map_map]
  refine List.map_congr_left fun p _ => ?_
  rw [Function.comp_apply]
  split
  next hid => exact (eq_of_beq hid).symm
  · rfl

theorem mem_store : p ∈ (g.store o).objects → p = o ∨ (p ∈ g.objects ∧ p.id ≠ o.id) := by
  intro hp
  obtain ⟨q, hq, rfl⟩ := List.mem_map.mp hp
  by_cases hid : q.id = o.id
  · rw [if_pos (beq_iff_eq.mpr hid)]
    exact .inl rfl
  · rw [if_neg (by simpa using hid)]
    exact .inr ⟨hq, hid⟩

theorem mem_store_of_ne (hp : p ∈ g.objects) (hid : p.id ≠ o.id) : p ∈ (g.store o).objects :=
  List.mem_map.mpr ⟨p, hp, by rw [if_neg (by simpa using hid)]⟩

theorem mem_store_self (hp : p ∈ g.objects) (hid : p.id = o.id) : o ∈ (g.store o).objects :=
  List.mem_map.mpr ⟨p, hp, by rw [if_pos (beq_iff_eq.mpr hid)]⟩

theorem idsOfKind_store (hnodup : g.ids.Nodup) (ho : o ∈ g.objects) (hid : o'.id = o.id) (hisa : o'.isa = o.isa)
    (k : String) : idsOfKind (g.store o').objects k = idsOfKind g.objects k := by
  have hkind : ∀ p ∈ g.objects, ((if p.id == o'.id then o' else p).isa == k) = (p.isa == k) ∧
      (if p.id == o'.id then o' else p).id = p.id := by
    intro p hp
    by_cases h : p.id = o'.id
    · obtain rfl := List.inj_on_of_nodup_map hnodup hp ho (h.trans hid)
      rw [if_pos (beq_iff_eq.mpr h), hisa]
      exact ⟨rfl, hid⟩
    · rw [if_neg (by simpa using h)]
      exact ⟨rfl, rfl⟩
  rw [idsOfKind, idsOfKind, Graph.store, List.filter_map, List.map_map]
  have hfilter : g.objects.filter ((fun o => o.isa == k) ∘ fun p => if p.id == o'.id then o' else p) =
      g.objects.filter fun o => o.isa == k :=
    List.filter_congr fun p hp => (hkind p hp).1
  rw [hfilter]
  exact List.map_congr_left fun p hp => (hkind p (List.mem_filter.mp hp).1).2

theorem mem_touch : p.id ∈ (g.touch id).touched ↔ p.id = id ∨ p.id ∈ g.touched := by
  rw [Graph.touch]
  split
  next hin =>
    refine ⟨.inr, ?_⟩
    rintro (h | h)
    · rw [h]
      exact List.contains_iff_mem.mp hin
    · exact h
  · rw [List.mem_append, List.mem_singleton, or_comm]

theorem touch_eq (g : Graph) (id : String) : g.touch id = { g with touched := (g.touch id).touched } := by
  rw [Graph.touch]
  split <;> rfl

theorem idsOfKind_remove (hnodup : g.ids.Nodup) (ho : o ∈ g.objects) (k : String) :
    idsOfKind (g.objects.filter fun p => p.id != o.id) k =
      if k = o.isa then (idsOfKind g.objects k).erase o.id else idsOfKind g.objects k := by
  have hne (os : List Object) : (os.filter fun p => p.id != o.id).map (·.id) = (os.map (·.id)).filter (· != o.id) := by
    rw [List.filter_map]
    rfl
  have hcomm : idsOfKind (g.objects.filter fun p => p.id != o.id) k =
      (idsOfKind g.objects k).filter (· != o.id) := by
    rw [idsOfKind, List.filter_comm, hne, idsOfKind]
  have hsub : (idsOfKind g.objects k).Nodup := hnodup.sublist (List.filter_sublist.map _)
  rw [hcomm]
  split
  · exact (hsub.erase_eq_filter _).symm
  next hk =>
    refine List.filter_eq_self.mpr fun i hi => ?_
    obtain ⟨p, hp, rfl⟩ := List.mem_map.mp hi
    obtain ⟨hp, hisa⟩ := List.mem_filter.mp hp
    rw [bne_iff_ne]
    intro hid
    obtain rfl := List.inj_on_of_nodup_map hnodup hp ho hid
    exact hk (eq_of_beq hisa).symm

theorem listed_map_erase (index : List (String × List String)) (isa id k : String) :
    listed (index.map fun e => if e.1 = isa then (e.1, e.2.erase id) else (e.1, e.2)) k =
      if k = isa then (listed index k).erase id else listed index k := by
  simp only [listed]
  induction index with
  | nil => simp
  | cons e index ih =>
    obtain ⟨k', ids⟩ := e
    rw [List.map_cons]
    by_cases hk : k = k'
    · subst hk
      by_cases hisa : k = isa
      · simp [if_pos hisa]
      · simp [if_neg hisa]
    · rw [Entries.lookup_cons_of_ne hk, ← ih]
      split <;> rw [Entries.lookup_cons_of_ne hk]

namespace Graph.IsIndexed

theorem append (h : g.IsIndexed) (hfree : o.id ∉ g.ids) (hobjects : g'.objects = g.objects ++ [o])
    (hindex : g'.index = indexInsert o.isa o.id g.index) : g'.IsIndexed where
  nodup := by
    rw [Graph.ids, hobjects, List.map_append, List.map_singleton]
    refine List.nodup_append.mpr ⟨h.nodup, List.nodup_singleton _, fun a ha b hb => ?_⟩
    obtain rfl := List.mem_singleton.mp hb
    rintro rfl
    exact hfree ha
  index k := by rw [hindex, hobjects, listed_indexInsert, idsOfKind_append_singleton, h.index]

theorem touch (h : g.IsIndexed) (id : String) : (g.touch id).IsIndexed := by
  rw [touch_eq]
  exact ⟨h.nodup, h.index⟩

/-- An object takes other fields, but no other kind. -/
theorem store (h : g.IsIndexed) (ho : o ∈ g.objects) (hid : o'.id = o.id) (hisa : o'.isa = o.isa) :
    (g.store o').IsIndexed where
  nodup := by
    rw [ids_store]
    exact h.nodup
  index k := by
    rw [idsOfKind_store h.nodup ho hid hisa]
    exact h.index k

/-- The index lists every object of the graph. -/
theorem contains_listed (h : g.IsIndexed) (ho : o ∈ g.objects) :
    ((g.index.lookup o.isa).getD []).contains o.id = true := by
  rw [List.contains_iff_mem, ← listed, h.index]
  exact List.mem_map_of_mem (List.mem_filter.mpr ⟨ho, beq_self_eq_true _⟩)

/-- An object that is there is taken out of the table and of the index. -/
theorem removeObject_eq (h : g.IsIndexed) (ho : o ∈ g.objects) : g.removeObject o.id = ({ g with
    objects := g.objects.filter fun p => p.id != o.id
    index := g.index.map fun e => if e.1 = o.isa then (e.1, e.2.erase o.id) else (e.1, e.2)
    removed := if g.removed.contains o.id then g.removed else g.removed ++ [o.id] }, .ok true) := by
  rw [Graph.removeObject, Graph.get?_of_mem h.nodup ho]
  simp only
  rw [if_pos (h.contains_listed ho)]

/-- Taking an object out never fails, and says whether it was there. -/
theorem removeObject_snd (h : g.IsIndexed) (id : String) : (g.removeObject id).2 = .ok (g.contains id) := by
  cases hget : g.get? id with
  | none => rw [Graph.removeObject, Graph.contains, hget]; rfl
  | some o =>
    obtain ⟨ho, rfl⟩ := Graph.get?_mem hget
    rw [h.removeObject_eq ho, Graph.contains, hget]
    rfl

theorem removeObject (h : g.IsIndexed) (id : String) : (g.removeObject id).1.IsIndexed := by
  cases hget : g.get? id with
  | none =>
    rw [Graph.removeObject, hget]
    exact h
  | some o =>
    obtain ⟨ho, rfl⟩ := Graph.get?_mem hget
    rw [h.removeObject_eq ho]
    refine ⟨h.nodup.sublist (List.filter_sublist.map _), fun k => ?_⟩
    rw [idsOfKind_remove h.nodup ho, ← h.index k]
    exact listed_map_erase g.index o.isa o.id k

end Graph.IsIndexed

end Index

/-! ## The invariant -/

/-- A graph that was changed since it was read.  Every object that was read and not removed is still there, and is
what it was unless it was touched. -/
structure Follows (g₀ g : Graph) : Prop where
  frame : g = { g₀ with
    objects := g.objects, index := g.index, added := g.added, removed := g.removed, touched := g.touched }
  nodup : g.ids.Nodup
  index : ∀ k, listed g.index k = idsOfKind g.objects k
  proper : ∀ o ∈ g.objects, o.IsProper
  kind : ∀ o ∈ g.objects, o.id ∈ g.added → IsKindName o.isa
  kept : ∀ o ∈ g₀.objects, o.id ∉ g.removed → o.id ∉ g.added ∧ ∃ p ∈ g.objects, p.id = o.id ∧ (o.id ∉ g.touched → p = o)
  origin : ∀ p ∈ g.objects, p.id ∈ g.added ∨ (p.id ∈ g₀.ids ∧ p.id ∉ g.removed)

section Follows

variable {g₀ g g' : Graph} {o o' : Object} {key ref : String}

theorem Follows.isIndexed (h : Follows g₀ g) : g.IsIndexed := ⟨h.nodup, h.index⟩

/-- A graph that has just been read. -/
theorem follows_refl (hnodup : g.ids.Nodup) (hindex : ∀ k, listed g.index k = idsOfKind g.objects k)
    (hproper : ∀ o ∈ g.objects, o.IsProper) (hadded : g.added = []) (hremoved : g.removed = []) : Follows g g where
  frame := rfl
  nodup := hnodup
  index := hindex
  proper := hproper
  kind := by simp [hadded]
  kept o ho _ := ⟨by simp [hadded], o, ho, rfl, fun _ => rfl⟩
  origin p hp := .inr ⟨List.mem_map_of_mem hp, by simp [hremoved]⟩

/-! ### Objects that change -/

theorem Follows.touch (h : Follows g₀ g) (id : String) : Follows g₀ (g.touch id) := by
  have htouched : ∀ o : Object, o.id ∉ (g.touch id).touched → o.id ∉ g.touched :=
    fun o ho hin => ho (mem_touch.mpr (.inr hin))
  rw [touch_eq]
  rw [touch_eq] at htouched
  refine ⟨?_, h.nodup, h.index, h.proper, h.kind, fun o ho hremoved => ?_, h.origin⟩
  · rw [h.frame]
  · obtain ⟨hadded, p, hp, hid, hsame⟩ := h.kept o ho hremoved
    exact ⟨hadded, p, hp, hid, fun hnot => hsame (htouched o hnot)⟩

/-- An object takes other fields and is touched. -/
theorem Follows.store_touch (h : Follows g₀ g) (ho : o ∈ g.objects) (hid : o'.id = o.id) (hisa : o'.isa = o.isa)
    (hproper : o'.IsProper) : Follows g₀ ((g.store o').touch o.id) := by
  have htouched : ∀ x : Object, x.id ∉ ((g.store o').touch o.id).touched → x.id ≠ o.id ∧ x.id ∉ g.touched := by
    intro x hx
    rw [mem_touch, not_or] at hx
    exact hx
  have hindexed := h.isIndexed.store ho hid hisa
  rw [touch_eq]
  rw [touch_eq] at htouched
  refine ⟨?_, hindexed.nodup, hindexed.index, fun p hp => ?_, fun p hp hadded => ?_, fun x hx hremoved => ?_,
    fun p hp => ?_⟩
  · rw [Graph.store, h.frame]
  · rcases mem_store hp with rfl | ⟨hp, -⟩
    · exact hproper
    · exact h.proper p hp
  · rcases mem_store hp with rfl | ⟨hp, -⟩
    · rw [hisa]
      exact h.kind o ho (hid ▸ hadded)
    · exact h.kind p hp hadded
  · obtain ⟨hadded, p, hp, hpid, hsame⟩ := h.kept x hx hremoved
    by_cases hx' : p.id = o'.id
    · exact ⟨hadded, o', mem_store_self hp hx', hx'.symm.trans hpid, fun hnot =>
        absurd (hpid.symm.trans (hx'.trans hid)) (htouched x hnot).1⟩
    · exact ⟨hadded, p, mem_store_of_ne hp hx', hpid, fun hnot => hsame (htouched x hnot).2⟩
  · rcases mem_store hp with rfl | ⟨hp, -⟩
    · rw [hid]
      exact h.origin o ho
    · exact h.origin p hp

/-! ### References -/

theorem Follows.appendRef (h : Follows g₀ g) (hkey : key ≠ "isa") (hquotable : IsQuotable key) (href : IsPlain ref)
    {comment : Option String} (hcomment : ∀ c, comment = some c → IsComment c) (owner : String) :
    Follows g₀ (g.appendRef owner key ref comment).1 := by
  rcases g.appendRef_eq_or_store owner key ref comment with hsame | ⟨o, rfl, hget, hchanged⟩
  · rw [hsame]
    exact h
  · have ho := (Graph.get?_mem hget).1
    have hproper := h.proper o ho
    rw [hchanged]
    refine h.store_touch ho rfl (Object.isa_setField hkey _) (hproper.setField hquotable (.list fun w hw => ?_))
    rcases List.mem_append.mp hw with hw | hw
    · exact hproper.listField key w hw
    · obtain rfl := List.mem_singleton.mp hw
      exact .scalar (href.isWritten hcomment)

theorem Follows.removeRef (h : Follows g₀ g) (hkey : key ≠ "isa") (hquotable : IsQuotable key) (owner ref : String) :
    Follows g₀ (g.removeRef owner key ref).1 := by
  rcases g.removeRef_eq_or_store owner key ref with hsame | ⟨o, rfl, hget, href, hchanged⟩
  · rw [hsame]
    exact h
  · have ho := (Graph.get?_mem hget).1
    have hproper := h.proper o ho
    rw [hchanged, Object.removeRef, if_pos href]
    exact h.store_touch ho rfl (Object.isa_setField hkey _)
      (hproper.setField hquotable (.list fun w hw => hproper.listField key w (List.mem_filter.mp hw).1))

/-! ### Build settings -/

theorem writable_text {s : String} (h : IsQuotable s) : (Value.text s).Writable :=
  .scalar (Scalar.isWritten_of h (by simp))

theorem writable_settingsAdding {settings changed : Dict Value} {name value inherited : String}
    (h : (Value.dict settings).Writable) (hname : IsQuotable name) (hvalue : IsQuotable value)
    (hinherited : IsQuotable inherited) (hchanged : Graph.settingsAdding settings name value inherited = some changed) :
    (Value.dict changed).Writable := by
  rw [Graph.settingsAdding] at hchanged
  split at hchanged
  · obtain rfl := Option.some.inj hchanged
    refine h.setSorted hname (.list fun w hw => ?_)
    rcases List.mem_cons.mp hw with rfl | hw
    · exact writable_text hinherited
    · obtain rfl := List.mem_singleton.mp hw
      exact writable_text hvalue
  next s hget =>
    split at hchanged
    · contradiction
    · obtain rfl := Option.some.inj hchanged
      refine h.set hname (.list fun w hw => ?_)
      rcases List.mem_cons.mp hw with rfl | hw
      · exact h.get? hget
      · obtain rfl := List.mem_singleton.mp hw
        exact writable_text hvalue
  next items hget =>
    split at hchanged
    · contradiction
    · obtain rfl := Option.some.inj hchanged
      refine h.set hname (.list fun w hw => ?_)
      rcases List.mem_append.mp hw with hw | hw
      · exact (h.get? hget).items w hw
      · obtain rfl := List.mem_singleton.mp hw
        exact writable_text hvalue
  · contradiction

theorem writable_settingsRemoving {settings changed : Dict Value} {name value : String}
    (h : (Value.dict settings).Writable) (hname : IsQuotable name)
    (hchanged : Graph.settingsRemoving settings name value = some changed) : (Value.dict changed).Writable := by
  rw [Graph.settingsRemoving] at hchanged
  split at hchanged
  · split at hchanged
    · obtain rfl := Option.some.inj hchanged
      exact h.erase name
    · contradiction
  next items hget =>
    split at hchanged
    · obtain rfl := Option.some.inj hchanged
      exact h.set hname (.list fun w hw => (h.get? hget).items w (List.mem_filter.mp hw).1)
    · contradiction
  · contradiction

theorem Follows.changeSettings (h : Follows g₀ g) {change : Dict Value → Option (Dict Value)}
    (hchange : ∀ settings changed, (Value.dict settings).Writable → change settings = some changed →
      (Value.dict changed).Writable) (configuration : String) :
    Follows g₀ (g.changeSettings configuration change).1 := by
  rcases g.changeSettings_eq_or_store configuration change with
    hsame | ⟨o, settings, changed, rfl, hget, hsettings, hmade, hchanged⟩
  · rw [hsame]
    exact h
  · have ho := (Graph.get?_mem hget).1
    have hproper := h.proper o ho
    rw [hchanged]
    exact h.store_touch ho rfl (Object.isa_setField (by decide) _) (hproper.setField isQuotable_buildSettings
      (hchange settings changed (hproper.fields.get? hsettings) hmade))

/-! ### Objects that come and go -/

/-- The object that is made for a kind and fields. -/
theorem isProper_added {isa : String} {fields : List (String × Draft)} {comment : Option String} {seed : String}
    (hisa : IsKindName isa) (hfields : ∀ f ∈ fields, f.1 ≠ "isa" ∧ IsQuotable f.1 ∧ f.2.IsProper)
    (hcomment : ∀ c, comment = some c → IsComment c) (h : g.addObject isa fields comment seed = .ok (g', o)) :
    o.IsProper ∧ o.isa = isa ∧ o.id = g.newId seed ∧ g' = { g with
      objects := g.objects ++ [o]
      index := indexInsert isa o.id g.index
      added := g.added ++ [o.id] } := by
  obtain ⟨values, hvalues, h⟩ := ok_of_bind h
  obtain ⟨rfl, rfl⟩ := Prod.mk.inj (Except.ok.inj h)
  -- Every value comes from one of the fields.
  have hfrom : ∀ f ∈ values, f.1 ≠ "isa" ∧ IsQuotable f.1 ∧ f.2.Writable := by
    intro f hf
    obtain ⟨x, hx, hvalue⟩ := exists_of_mapM hvalues f hf
    obtain ⟨v, hv, hpair⟩ := ok_of_bind hvalue
    obtain rfl := Except.ok.inj hpair
    have hx' := (Dict.mem_foldl_assign (List.mem_mergeSort.mp hx)).resolve_right (by simp)
    obtain ⟨hne, hquotable, hproper⟩ := hfields x hx'
    exact ⟨hne, hquotable, hproper.writable hv⟩
  have hbag : ∀ (vs : List (String × Value)) (d : Dict Value), (Value.dict d).Writable →
      d.get? "isa" = some (.scalar ⟨isa, none⟩) → (∀ f ∈ vs, f.1 ≠ "isa" ∧ IsQuotable f.1 ∧ f.2.Writable) →
      (Value.dict (vs.foldl (fun (d : Dict Value) f => d.set f.1 f.2) d)).Writable ∧
        (vs.foldl (fun (d : Dict Value) f => d.set f.1 f.2) d).get? "isa" = some (.scalar ⟨isa, none⟩) := by
    intro vs
    induction vs with
    | nil => exact fun d hd hget _ => ⟨hd, hget⟩
    | cons f vs ih =>
      intro d hd hget hvs
      obtain ⟨hne, hquotable, hwritable⟩ := hvs f (by simp)
      refine ih (d.set f.1 f.2) (hd.set hquotable hwritable) ?_ fun x hx => hvs x (by simp [hx])
      rw [← hget]
      exact Dict.lookup_assign_of_ne (Ne.symm hne) _ _
  have hplain : IsPlain isa := by
    rw [← String.ofList_toList (s := isa)]
    exact isPlain_of_wordParts hisa.nonempty fun c hc => isWordPart_of_isWord (hisa.word c hc)
  have hfirst : (Value.dict ⟨[("isa", Value.scalar ⟨isa, none⟩)], []⟩).Writable := by
    refine writable_plain (by simp) (fun e he => ?_) fun e he => ?_
    · obtain rfl := List.mem_singleton.mp he
      exact isQuotable_isa
    · obtain rfl := List.mem_singleton.mp he
      exact .scalar (hplain.isWritten (by simp))
  obtain ⟨hwritable, hget⟩ := hbag values _ hfirst (Entries.lookup_cons_self ..) hfrom
  refine ⟨⟨Graph.newId_isPlain g seed, hcomment, hwritable⟩, ?_, rfl, rfl⟩
  rw [Object.isa, Object.text?, Object.field?, hget]
  exact hplain.value none

theorem Follows.addObject (h : Follows g₀ g) {isa : String} {fields : List (String × Draft)} {comment : Option String}
    {seed : String} (hisa : IsKindName isa) (hfields : ∀ f ∈ fields, f.1 ≠ "isa" ∧ IsQuotable f.1 ∧ f.2.IsProper)
    (hcomment : ∀ c, comment = some c → IsComment c) (hadd : g.addObject isa fields comment seed = .ok (g', o)) :
    Follows g₀ g' := by
  obtain ⟨hproper, hkind, hid, rfl⟩ := isProper_added hisa hfields hcomment hadd
  have hfree : o.id ∉ g.ids := hid ▸ Graph.newId_notMem g seed
  have hindexed : Graph.IsIndexed { g with
      objects := g.objects ++ [o]
      index := indexInsert isa o.id g.index
      added := g.added ++ [o.id] } := h.isIndexed.append hfree rfl (by rw [hkind])
  refine ⟨?_, hindexed.nodup, hindexed.index, fun p hp => ?_, fun p hp hadded => ?_, fun x hx hremoved => ?_,
    fun p hp => ?_⟩
  · rw [h.frame]
  · rcases List.mem_append.mp hp with hp | hp
    · exact h.proper p hp
    · obtain rfl := List.mem_singleton.mp hp
      exact hproper
  · rcases List.mem_append.mp hp with hp | hp
    · refine h.kind p hp ((List.mem_append.mp hadded).resolve_right fun hin => hfree ?_)
      rw [← List.mem_singleton.mp hin]
      exact List.mem_map_of_mem hp
    · obtain rfl := List.mem_singleton.mp hp
      rw [hkind]
      exact hisa
  · obtain ⟨hadded, p, hp, hpid, hsame⟩ := h.kept x hx hremoved
    refine ⟨fun hin => ?_, p, List.mem_append_left _ hp, hpid, hsame⟩
    rcases List.mem_append.mp hin with hin | hin
    · exact hadded hin
    · rw [← hpid] at hin
      exact hfree (List.mem_singleton.mp hin ▸ List.mem_map_of_mem hp)
  · rcases List.mem_append.mp hp with hp | hp
    · exact (h.origin p hp).imp_left (List.mem_append_left _)
    · obtain rfl := List.mem_singleton.mp hp
      exact .inl (by simp)

theorem Follows.removeObject (h : Follows g₀ g) (id : String) : Follows g₀ (g.removeObject id).1 := by
  cases hget : g.get? id with
  | none =>
    rw [Graph.removeObject, hget]
    exact h
  | some o =>
    obtain ⟨ho, rfl⟩ := Graph.get?_mem hget
    have hindexed := h.isIndexed.removeObject o.id
    rw [h.isIndexed.removeObject_eq ho] at hindexed ⊢
    have hremoved : ∀ i, i ∈ (if g.removed.contains o.id then g.removed else g.removed ++ [o.id]) ↔
        i = o.id ∨ i ∈ g.removed := by
      intro i
      split
      next hin =>
        refine ⟨.inr, ?_⟩
        rintro (rfl | hi)
        · exact List.contains_iff_mem.mp hin
        · exact hi
      · rw [List.mem_append, List.mem_singleton, or_comm]
    have hsub : ∀ p ∈ g.objects.filter (fun p => p.id != o.id), p ∈ g.objects ∧ p.id ≠ o.id := by
      intro p hp
      obtain ⟨hp, hne⟩ := List.mem_filter.mp hp
      exact ⟨hp, by simpa using hne⟩
    refine ⟨?_, hindexed.nodup, hindexed.index, fun p hp => ?_, fun p hp hadded => ?_, fun x hx hnot => ?_,
      fun p hp => ?_⟩
    · rw [h.frame]
    · exact h.proper p (hsub p hp).1
    · exact h.kind p (hsub p hp).1 hadded
    · rw [hremoved, not_or] at hnot
      obtain ⟨hadded, p, hp, hpid, hsame⟩ := h.kept x hx hnot.2
      refine ⟨hadded, p, List.mem_filter.mpr ⟨hp, ?_⟩, hpid, hsame⟩
      rw [bne_iff_ne, hpid]
      exact hnot.1
    · obtain ⟨hp, hne⟩ := hsub p hp
      rcases h.origin p hp with hadded | ⟨hread, hnot⟩
      · exact .inl hadded
      · refine .inr ⟨hread, ?_⟩
        rw [hremoved, not_or]
        exact ⟨hne, hnot⟩

/-! ### Runs -/

theorem Follows.apply (h : Follows g₀ g) {c : Change} (hc : c.IsProper) : Follows g₀ (c.apply g) := by
  cases c with
  | add isa fields comment seed =>
    obtain ⟨hisa, hfields, hcomment⟩ := hc
    simp only [Change.apply]
    split
    next g' o hadd => exact h.addObject hisa hfields hcomment hadd
    · exact h
  | remove id => exact h.removeObject id
  | touch id => exact h.touch id
  | appendRef owner key ref comment => exact h.appendRef hc.1 hc.2.1 hc.2.2.1 hc.2.2.2 owner
  | removeRef owner key ref => exact h.removeRef hc.1 hc.2 owner ref
  | addSetting configuration name value inherited =>
    exact h.changeSettings (fun _ _ hsettings hchanged =>
      writable_settingsAdding hsettings hc.1 hc.2.1 hc.2.2 hchanged) configuration
  | removeSetting configuration name value =>
    exact h.changeSettings (fun _ _ hsettings hchanged => writable_settingsRemoving hsettings hc hchanged) configuration

/-- Proper changes keep the invariant, however many there are. -/
theorem Follows.changed (h : Follows g₀ g) {changes : List Change} (hchanges : ∀ c ∈ changes, c.IsProper) :
    Follows g₀ (g.changed changes) := by
  induction changes generalizing g with
  | nil => exact h
  | cons c changes ih => exact ih (h.apply (hchanges c (by simp))) fun d hd => hchanges d (by simp [hd])

end Follows

end Xcode
end ModuleLink
