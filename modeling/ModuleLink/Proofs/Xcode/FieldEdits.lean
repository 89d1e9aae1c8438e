import ModuleLink.Proofs.Text.Stretches
import ModuleLink.Proofs.Xcode.AnyLayout
import ModuleLink.Proofs.Xcode.Overlaps

/-!
Edits of fields in a text of any layout.  Each object that was touched is written over its span, so the text around these
spans stays, and what is written is read back as the graph is in memory.
-/

namespace ModuleLink
namespace Xcode

open Plist Text

/-! ## Edits of fields -/

/-- The change is to a list field of an object or to the settings of one. -/
def Change.IsFieldEdit : Change → Prop
  | .appendRef .. | .removeRef .. | .addSetting .. | .removeSetting .. => True
  | .add .. | .remove _ | .touch _ => False

namespace Graph

/-- The objects without their fields. -/
def heads (g : Graph) : List (String × Option String) := g.objects.map fun o => (o.id, o.comment)

/-- An object that was touched stands between these two places of the text. -/
def IsTouchedSpan (g : Graph) (a b : Nat) : Prop :=
  ∃ id ∈ g.touched, ∃ span, g.spans.lookup id = some span ∧ span.start = a ∧ span.stop = b

/-- Nothing but fields is different. -/
structure SameHeads (g g' : Graph) : Prop where
  heads : g'.heads = g.heads
  added : g'.added = g.added
  removed : g'.removed = g.removed

end Graph

section FieldEdits

variable {g g' : Graph} {o : Object} {c : Change} {changes : List Change}

theorem Graph.SameHeads.refl (g : Graph) : g.SameHeads g := ⟨rfl, rfl, rfl⟩

theorem Graph.SameHeads.trans {g'' : Graph} (h : g.SameHeads g') (h' : g'.SameHeads g'') : g.SameHeads g'' :=
  ⟨h'.heads.trans h.heads, h'.added.trans h.added, h'.removed.trans h.removed⟩

theorem Graph.SameHeads.ids (h : g.SameHeads g') : g'.ids = g.ids := by
  have hids := congrArg (List.map (·.1)) h.heads
  rw [Graph.heads, Graph.heads, List.map_map, List.map_map] at hids
  exact hids

/-- An object takes other fields and is touched. -/
theorem Graph.sameHeads_store_touch (hnodup : g.ids.Nodup) (ho : o ∈ g.objects) (fields : Dict Value) (id : String) :
    g.SameHeads ((g.store { o with fields := fields }).touch id) := by
  rw [touch_eq]
  refine ⟨?_, rfl, rfl⟩
  show (g.store { o with fields := fields }).objects.map (fun o => (o.id, o.comment)) =
    g.objects.map fun o => (o.id, o.comment)
  rw [Graph.store, List.map_map]
  refine List.map_congr_left fun p hp => ?_
  rw [Function.comp_apply]
  split
  next hsame => rw [List.inj_on_of_nodup_map hnodup hp ho (eq_of_beq hsame)]
  · rfl

theorem Change.IsFieldEdit.sameHeads (hc : c.IsFieldEdit) (hnodup : g.ids.Nodup) : g.SameHeads (c.apply g) := by
  cases hkey : c.writes? with
  | some key =>
    rcases Change.apply_eq_or_store hkey g with hsame | ⟨o, ho, v, hchanged⟩
    · rw [hsame]
      exact .refl g
    · rw [hchanged]
      exact Graph.sameHeads_store_touch hnodup ho _ o.id
  | none =>
    cases c with
    | add | remove | touch => exact hc.elim
    | appendRef | removeRef | addSetting | removeSetting => contradiction

theorem Graph.sameHeads_changed (hchanges : ∀ c ∈ changes, c.IsFieldEdit) (hnodup : g.ids.Nodup) :
    g.SameHeads (g.changed changes) := by
  induction changes generalizing g with
  | nil => exact .refl g
  | cons c changes ih =>
    have h := (hchanges c (by simp)).sameHeads hnodup
    exact h.trans (ih (fun d hd => hchanges d (by simp [hd])) (h.ids ▸ hnodup))

end FieldEdits

/-! ## Rows that are written -/

section Rows

variable {g : Graph} {r : Row} {rows : List Row} {o : Object} {os : List Object} {n : Nat}

/-- What becomes of the span of a row. -/
def Row.stretch (g : Graph) (r : Row) : Stretch where
  lead := r.lead
  old := r.lines
  new? := if r.key.text ∈ g.touched then
      (g.get? r.key.text).map fun o => renderObject o r.indent r.inline r.wholeLine
    else none

/-- What becomes of a row. -/
def Row.written (g : Graph) (r : Row) : List Char := r.lead ++ (r.stretch g).new?.getD r.lines

theorem before_stretches (g : Graph) (rows : List Row) : Stretch.before (rows.map (Row.stretch g)) = textOfRows rows := by
  rw [Stretch.before, List.flatMap_map]
  rfl

theorem after_stretches (g : Graph) (rows : List Row) :
    Stretch.after (rows.map (Row.stretch g)) = rows.flatMap (Row.written g) := by
  rw [Stretch.after, List.flatMap_map]
  rfl

/-- The edit that writes one object. -/
def Graph.changeEdit? (g : Graph) (id : String) : Option Edit :=
  match g.spans.lookup id, g.get? id with
  | some span, some o => some ⟨span.start, span.stop, renderObject o span.indent span.inline span.wholeLine⟩
  | _, _ => none

theorem changeEdits_eq (hremoved : g.removed = []) : g.changeEdits = g.touched.filterMap g.changeEdit? := by
  refine List.filterMap_congr fun id _ => ?_
  rw [Graph.changeEdit?, hremoved]
  rfl

/-- The stretches are replaced by the edits that write their objects. -/
theorem edits_stretches (hspans : List.Forall₂ (fun r span => g.spans.lookup r.key.text = some span) rows
      (spansFrom n rows)) :
    Stretch.edits n (rows.map (Row.stretch g)) =
      ((rows.map (·.key.text)).filter (· ∈ g.touched)).filterMap g.changeEdit? := by
  induction rows generalizing n with
  | nil => rfl
  | cons r rows ih =>
    rw [spansFrom] at hspans
    obtain ⟨hspan, hspans⟩ := List.forall₂_cons.mp hspans
    have hplace : n + r.text.length = n + r.lead.length + r.lines.length := by
      rw [Row.text, List.length_append, Nat.add_assoc]
    rw [hplace] at hspans
    have hrest := ih hspans
    rw [List.map_cons, List.map_cons]
    by_cases htouched : r.key.text ∈ g.touched
    · rw [List.filter_cons_of_pos (by simpa using htouched), List.filterMap_cons, Graph.changeEdit?, hspan]
      cases hget : g.get? r.key.text with
      | none =>
        have hnew : (r.stretch g).new? = none := by rw [Row.stretch, if_pos htouched, hget]; rfl
        rw [Stretch.edits_cons_none hnew]
        exact hrest
      | some o =>
        have hnew : (r.stretch g).new? = some (renderObject o r.indent r.inline r.wholeLine) := by
          rw [Row.stretch, if_pos htouched, hget]
          rfl
        rw [Stretch.edits_cons_some hnew]
        exact congrArg (_ :: ·) hrest
    · have hnew : (r.stretch g).new? = none := by rw [Row.stretch, if_neg htouched]
      rw [List.filter_cons_of_neg (by simpa using htouched), Stretch.edits_cons_none hnew]
      exact hrest

/-- Every object that was touched has one row. -/
theorem perm_changeEdits (hremoved : g.removed = []) (honce : g.touched.Nodup) (hids : rows.map (·.key.text) = g.ids)
    (hnodup : g.ids.Nodup)
    (hspans : List.Forall₂ (fun r span => g.spans.lookup r.key.text = some span) rows (spansFrom n rows)) :
    g.changeEdits.Perm (Stretch.edits n (rows.map (Row.stretch g))) := by
  have hthere : g.touched.filterMap g.changeEdit? = (g.touched.filter (· ∈ g.ids)).filterMap g.changeEdit? := by
    rw [List.filterMap_filter]
    refine List.filterMap_congr fun id _ => ?_
    split
    · rfl
    next hnot =>
      have hnone : g.get? id = none := Graph.get?_eq_none_iff.mpr (by simpa using hnot)
      rw [Graph.changeEdit?, hnone]
      cases g.spans.lookup id <;> rfl
  rw [changeEdits_eq hremoved, hthere, edits_stretches hspans, hids]
  refine List.Perm.filterMap _ ((List.perm_ext_iff_of_nodup (honce.filter _) (hnodup.filter _)).mpr fun id => ?_)
  simp only [List.mem_filter, decide_eq_true_eq, and_comm]

/-- A row that is written holds its object. -/
theorem carries_written (hnodup : g.ids.Nodup) (ho : o ∈ g.objects) (hproper : o.IsProper) (hid : r.key.text = o.id)
    (hkept : o.id ∉ g.touched → r.pair = o.tidy.pair) : Carries (r.written g) [o.tidy.pair] := by
  rw [Row.written, Row.stretch, hid, Graph.get?_of_mem hnodup ho]
  split
  · exact carries_append_renderObject hproper r.gap r.indent_blank r.inline r.wholeLine
  next htouched =>
    rw [← hkept htouched]
    exact r.carries

/-- Rows that each hold one of the objects hold them all, in their order. -/
theorem carries_rows {piece : Row → List Char} (h : rows.map (·.key.text) = os.map Object.id)
    (hpiece : ∀ r ∈ rows, ∀ o ∈ os, r.key.text = o.id → Carries (piece r) [o.tidy.pair]) :
    Carries (rows.flatMap piece) (os.map fun o => o.tidy.pair) := by
  induction rows generalizing os with
  | nil =>
    obtain rfl := List.map_eq_nil_iff.mp h.symm
    exact carries_gap .nil
  | cons r rows ih =>
    obtain ⟨o, rest, rfl, hid, hids⟩ := List.map_eq_cons_iff.mp h.symm
    have hrest := ih hids.symm fun x hx p hp => hpiece x (by simp [hx]) p (by simp [hp])
    exact (hpiece r (by simp) o (by simp) hid.symm).append hrest

end Rows

/-! ## Texts that are written -/

section Written

variable {g₀ : Graph} {source : String} {text : List Char} {changes : List Change}

/-- The rows of a graph whose fields were edited are written, and nothing else is. -/
theorem Rowed.applyEdits {g : Graph} {pre post : List Char} {rows : List Row} (h : Rowed source g₀ pre rows post)
    (hfollows : Follows g₀ g) (hheads : g₀.SameHeads g) (hadded : g₀.added = []) (hremoved : g₀.removed = [])
    (honce : g.touched.Nodup) :
    Text.applyEdits g.text g.edits = .ok (pre ++ rows.flatMap (Row.written g) ++ post) ∧
      SameOutside g.IsTouchedSpan 0 g.text (pre ++ rows.flatMap (Row.written g) ++ post) := by
  have htext : g.text = g₀.text := by rw [hfollows.frame]
  have hspans : g.spans = g₀.spans := by rw [hfollows.frame]
  have hids : rows.map (·.key.text) = g.ids := h.map_text.trans hheads.ids.symm
  have hrows := h.spans
  rw [← hspans] at hrows
  have hperm := perm_changeEdits (hheads.removed.trans hremoved) honce hids hfollows.nodup hrows
  rw [edits_eq_changeEdits (hheads.added.trans hadded) (hheads.removed.trans hremoved), htext, h.text, ← after_stretches,
    ← before_stretches g rows, ← List.append_assoc]
  refine ⟨Stretch.applyEdits_stretches (fun s hs => ?_) hperm, ?_⟩
  · obtain ⟨r, -, rfl⟩ := List.mem_map.mp hs
    exact r.lines_ne
  · have hsame := Stretch.sameOutside_edits (rows.map (Row.stretch g)) pre post 0
    rw [Nat.zero_add] at hsame
    refine hsame.mono ?_
    rintro a b ⟨e, he, rfl, rfl⟩
    obtain ⟨id, htouched, span, o, hspan, -, -, rfl⟩ := mem_changeEdits (hperm.mem_iff.mpr he)
    exact ⟨id, htouched, span, hspan, rfl, rfl⟩

/-- The rows that are written hold the objects of the graph. -/
theorem Rowed.carries {g : Graph} {pre post : List Char} {rows : List Row} (h : Rowed source g₀ pre rows post)
    (htidy : ∀ o ∈ g₀.objects, o.tidy = o) (hfollows : Follows g₀ g) (hheads : g₀.SameHeads g)
    (hremoved : g₀.removed = []) : Carries (rows.flatMap (Row.written g)) ((g.objects.map Object.tidy).map Object.pair) := by
  rw [List.map_map]
  refine carries_rows (h.map_text.trans hheads.ids.symm) fun r hr o ho hid => ?_
  refine carries_written hfollows.nodup ho (hfollows.proper o ho) hid fun htouched => ?_
  -- An object that was not touched is the one that was read from the row.
  obtain ⟨o₀, ho₀, hpair⟩ := List.mem_map.mp (h.pairs ▸ List.mem_map_of_mem (f := Row.pair) hr)
  have hid₀ : o₀.id = o.id := (congrArg (fun p => p.1.text) hpair).trans hid
  obtain ⟨-, p, hp, hpid, hsame⟩ := hfollows.kept o₀ ho₀ (by rw [hheads.removed, hremoved]; exact List.not_mem_nil)
  obtain rfl := List.inj_on_of_nodup_map hfollows.nodup hp ho (hpid.trans hid₀)
  rw [hsame (hid₀ ▸ htouched), htidy o₀ ho₀, hpair]

/-- However a text is laid out, a graph of which only fields were edited is written.  What is written is the text outside
the spans of the objects that were touched, and it is read back with the same objects and comments in the same order and
with the fields that the graph has. -/
theorem load_serialise_of_fieldEdits (hload : Graph.load source text = .ok g₀) (hids : HasPlainIds text)
    (hedits : ∀ c ∈ changes, c.IsFieldEdit) (hproper : ∀ c ∈ changes, c.IsProper) :
    ∃ t, (g₀.changed changes).serialise = .ok t ∧
      SameOutside (g₀.changed changes).IsTouchedSpan 0 text t ∧
      ∃ g, Graph.load source t = .ok g ∧ g.heads = g₀.heads ∧
        g.objects = (g₀.changed changes).objects.map Object.tidy := by
  obtain ⟨htext, hadded, hremoved, htouched⟩ := unmodified_of_load hload
  obtain ⟨hfollows₀, htidy, pre, rows, post, hrowed⟩ := exists_rowed_of_load hload hids
  have hfollows : Follows g₀ (g₀.changed changes) := hfollows₀.changed hproper
  have hheads : g₀.SameHeads (g₀.changed changes) := Graph.sameHeads_changed hedits hfollows₀.nodup
  have honce : (g₀.changed changes).Once :=
    Graph.Once.changed ⟨by rw [hremoved]; exact .nil, by rw [htouched]; exact .nil⟩ changes
  generalize g₀.changed changes = g at hfollows hheads honce
  have hframe : g.text = text := by rw [hfollows.frame, ← htext]
  obtain ⟨happly, hsame⟩ := hrowed.applyEdits hfollows hheads hadded hremoved honce.touched
  rw [hframe] at hsame
  have hcarries := hrowed.carries htidy hfollows hheads hremoved
  have htidyIds : (g.objects.map Object.tidy).map Object.id = g₀.ids := by
    rw [List.map_map]
    exact hheads.ids
  obtain ⟨g', hload', hobjects⟩ := hrowed.exchange _ _ hcarries htidyIds
  rw [← List.append_assoc] at hload'
  refine ⟨_, serialise_of_applyEdits happly, hsame, g', hload', ?_, hobjects⟩
  rw [← hheads.heads, Graph.heads, hobjects, List.map_map]
  rfl

/-- A project on one line, with a comment between its objects. -/
def oneLine : List Char := "\x7bobjects=\x7bA1=\x7bisa=PBXGroup;\x7d;/* b */A2=\x7bisa=PBXGroup;\x7d;\x7d;\x7d".toList

/-- A group with a new child is written in the middle of this line. -/
theorem load_serialise_of_fieldEdits_oneLine :
    ∃ g₀ t, Graph.load "project" oneLine = .ok g₀ ∧ HasPlainIds oneLine ∧ (∀ c ∈ childAdded, c.IsFieldEdit) ∧
      (∀ c ∈ childAdded, c.IsProper) ∧ (g₀.changed childAdded).touched = ["A1"] ∧
      (g₀.changed childAdded).serialise = .ok t ∧
      SameOutside (g₀.changed childAdded).IsTouchedSpan 0 oneLine t ∧
      ∃ g, Graph.load "project" t = .ok g ∧ g.heads = g₀.heads ∧
        g.objects = (g₀.changed childAdded).objects.map Object.tidy := by
  have hstate : (Graph.load "project" oneLine).toOption.any (fun g => (g.changed childAdded).touched == ["A1"]) = true := by
    decide +kernel
  cases hload : Graph.load "project" oneLine with
  | error f =>
    rw [hload] at hstate
    contradiction
  | ok g₀ =>
    simp only [hload, Except.toOption, Option.any_some, beq_iff_eq] at hstate
    have hids : HasPlainIds oneLine := by decide +kernel
    have hedits : ∀ c ∈ childAdded, c.IsFieldEdit := by simp [childAdded, Change.IsFieldEdit]
    obtain ⟨t, ht, hsame, hread⟩ := load_serialise_of_fieldEdits hload hids hedits childAdded_isProper
    exact ⟨g₀, t, rfl, hids, hedits, childAdded_isProper, hstate, ht, hsame, hread⟩

end Written

end Xcode
end ModuleLink
