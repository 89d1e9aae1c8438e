import Mathlib
import ModuleLink.Proofs.Outcome
import ModuleLink.Proofs.Patch.Files
import ModuleLink.Proofs.Patch.Stack

/-!
Taking out an insertion right after it was made, whatever its relation to its anchor.  A text behind its anchor is found
next to it, and a text at the end is found there.  A text before its anchor is looked for from the front of the file, so
it must not be taken for a copy of itself that ends inside it.
-/

namespace ModuleLink
namespace Patch
namespace Insertion

open Text Workspace

variable {p : Insertion} {path : String} {content changed : List Char}

/-! ## In a text -/

/-- An insertion that is made was not there before, and its text goes to the end or next to the only place of its
anchor. -/
theorem apply_eq_some (h : p.apply path content = .ok (some changed)) :
    p.isEmpty = false ∧ p.isIn content = false ∧
      ((p.relation = .append ∧ changed = content ++ p.chars) ∨
        ∃ a s e, p.anchor = some a ∧ a.places content = [(s, e)] ∧
          ((p.relation = .before ∧ changed = p.insertAt content s) ∨
            (p.relation = .after ∧ changed = p.insertAt content e))) := by
  rw [Insertion.apply] at h
  split at h
  · simp at h
  next hguard =>
    obtain ⟨hempty, hfresh⟩ : p.isEmpty = false ∧ p.isIn content = false := by simpa using hguard
    refine ⟨hempty, hfresh, ?_⟩
    split at h
    next hrelation =>
      obtain rfl := Option.some.inj (Except.ok.inj h)
      exact .inl ⟨hrelation, rfl⟩
    next hrelation =>
      obtain ⟨a, ha, h⟩ := ok_of_bind h
      have hanchor : p.anchor = some a := by
        rw [requireAnchor] at ha
        split at ha
        next heq => rw [heq, Except.ok.inj ha]
        · contradiction
      split at h
      · contradiction
      next s e hplaces =>
        obtain rfl := Option.some.inj (Except.ok.inj h)
        refine .inr ⟨a, s, e, hanchor, hplaces, ?_⟩
        cases hside : p.relation with
        | before => exact .inl ⟨rfl, rfl⟩
        | after => exact .inr ⟨rfl, rfl⟩
        | append => exact absurd hside hrelation
      · contradiction

/-- A text at the end is found there, whatever stands before it. -/
theorem revert_append (hp : p.relation = .append) (hempty : p.isEmpty = false) :
    p.revert (content ++ p.chars) = .ok (.removed content) := by
  have hin : p.isIn (content ++ p.chars) = true := isIn_iff.mpr ⟨content, [], by rw [List.append_nil]⟩
  have hlocate : p.locate (content ++ p.chars) = .ok (some content.length) := by
    rw [locate, hin, hp, if_neg (by simp)]
    show (if endsWith p.chars (content ++ p.chars) then _ else _) = _
    rw [if_pos (endsWith_iff.mpr ⟨content, rfl⟩), List.length_append, Nat.add_sub_cancel]
  rw [Insertion.revert, hempty, hlocate]
  show Except.ok (Reversal.removed (p.removeAt (content ++ p.chars) content.length)) = _
  rw [removeAt, List.take_left, ← List.length_append, List.drop_length, List.append_nil]

/-- Taking out an insertion that was just made gives the content back.  Before an anchor this needs a text of which no
beginning is also its end. -/
theorem revert_of_apply (hself : p.relation = .before → NotAcross p.chars p.chars)
    (h : p.apply path content = .ok (some changed)) : p.revert changed = .ok (.removed content) := by
  obtain ⟨hempty, hfresh, ⟨hrelation, rfl⟩ | ⟨a, s, e, ha, hplaces, ⟨hrelation, rfl⟩ | ⟨hrelation, rfl⟩⟩⟩ :=
    apply_eq_some h
  · exact revert_append hrelation hempty
  · have hchars : p.chars ≠ [] := by simpa [Insertion.isEmpty, Insertion.chars] using hempty
    have hsplit : p.insertAt content s = content.take s ++ (p.chars ++ content.drop s) := List.append_assoc _ _ _
    have hone : hits p.chars (p.insertAt content s) = 1 := by
      rw [hsplit]
      refine hits_insert hchars (hself hrelation) ?_
      rw [List.take_append_drop]
      exact hfresh
    rw [revert_of_hits (.inr ⟨a, ha⟩) hempty hsplit hone, List.take_append_drop]
  · exact Made.revert ⟨hempty, hfresh, a, s, e, ⟨ha, hrelation⟩, hplaces, rfl⟩

/-! ## In a file -/

/-- An insertion that changes a file is made in its text. -/
theorem run_applyTo_eq_true {path : Path} {w w' : Workspace} (h : (p.applyTo path).run w = (.ok true, w')) :
    p.isEmpty = false ∧ ∃ names content changed, w.tree.HasFile path names (String.toUTF8 content) ∧
      p.apply path.toString content.toList = .ok (some changed) ∧
      w' = { w with tree := w.tree.overwrite names (String.ofList changed).toUTF8 } := by
  cases hempty : p.isEmpty with
  | true =>
    simp only [applyTo, hempty, if_true] at h
    exact absurd (Attempt.run_pure_eq_ok h).1 (by simp)
  | false =>
    cases hread : w.tree.readText path with
    | error f =>
      have hrun : (p.applyTo path).run w = (.error f, w) := by
        simp only [applyTo, hempty, Bool.false_eq_true, if_false]
        exact Attempt.run_bind_error (by rw [run_readText, hread])
      rw [hrun] at h
      exact absurd (Prod.mk.inj h).1 (by simp)
    | ok content =>
      obtain ⟨names, hfile⟩ := Tree.hasFile_of_readText hread
      refine ⟨rfl, names, content, ?_⟩
      rw [run_applyTo_eq hempty hfile] at h
      rcases happly : p.apply path.toString content.toList with f | _ | changed
      · rw [happly] at h
        exact absurd (Prod.mk.inj h).1 (by simp)
      · rw [happly] at h
        exact absurd (Prod.mk.inj h).1 (by simp)
      · rw [happly] at h
        exact ⟨changed, hfile, rfl, (Prod.mk.inj h).2.symm⟩

theorem IsBehind.madeIn_of_applyTo {a : Anchor} {path : Path} {w w' : Workspace} (hp : p.IsBehind a)
    (h : (p.applyTo path).run w = (.ok true, w')) : p.MadeIn path w w' := by
  obtain ⟨hempty, names, content, changed, hfile, happly, rfl⟩ := run_applyTo_eq_true h
  refine ⟨names, content, changed, hfile, ?_, rfl⟩
  rcases apply_cases hp path.toString content.toList with ⟨hnone, -⟩ | ⟨changed', hsome, hmade⟩ | ⟨f, herror, -⟩
  · rw [happly] at hnone
    exact absurd (Except.ok.inj hnone) (by simp)
  · rw [happly] at hsome
    rwa [Option.some.inj (Except.ok.inj hsome)]
  · rw [happly] at herror
    contradiction

/-- Where an insertion changed a file, taking it out right after leaves everything as it was before.  Before an anchor
this needs a text of which no beginning is also its end. -/
theorem run_revertIn_of_applyTo {path : Path} {w w' : Workspace}
    (hself : p.relation = .before → NotAcross p.chars p.chars) (h : (p.applyTo path).run w = (.ok true, w')) :
    (p.revertIn path).run w' = (.ok true, w) := by
  obtain ⟨hempty, names, content, changed, hfile, happly, rfl⟩ := run_applyTo_eq_true h
  exact run_revertIn_of_overwrite hempty hfile (revert_of_apply hself happly)

/-! ## A text before its anchor -/

/-- A folder with one file in it. -/
def oneFile (text : String) : Workspace where
  tree := { root := .folder [("settings.gradle", .file text.toUTF8)], here := ⟨"/", []⟩ }

def settingsFile : Path := ⟨"", ["settings.gradle"]⟩

theorem hasFile_oneFile (text : String) :
    (oneFile text).tree.HasFile settingsFile ["settings.gradle"] text.toUTF8 := ⟨rfl, rfl⟩

def headline : Insertion := ⟨"headline", some (.literal "rootProject"), "// generated\n", .before⟩

theorem run_revertIn_headline :
    (headline.applyTo settingsFile).run (oneFile "rootProject.name\n") =
        (.ok true, oneFile "// generated\nrootProject.name\n") ∧
      (headline.revertIn settingsFile).run (oneFile "// generated\nrootProject.name\n") =
        (.ok true, oneFile "rootProject.name\n") := by
  have hself : NotAcross headline.chars headline.chars := notAcross_of_getLast (k := '\n') (by decide) (by decide)
  have happly : headline.apply settingsFile.toString "rootProject.name\n".toList =
      .ok (some "// generated\nrootProject.name\n".toList) := rfl
  have happlyTo : (headline.applyTo settingsFile).run (oneFile "rootProject.name\n") =
      (.ok true, oneFile "// generated\nrootProject.name\n") := by
    rw [run_applyTo_eq (by decide) (hasFile_oneFile _), happly]
    rfl
  exact ⟨happlyTo, run_revertIn_of_applyTo (fun _ => hself) happlyTo⟩

/-- A text that ends as it begins. -/
def overlapping : Insertion := ⟨"overlapping", some (.literal "ba"), "aba", .before⟩

/-- Once the text is in, a copy of it ends right before an earlier place of the anchor, and that one is taken out. -/
theorem run_revertIn_overlapping :
    (overlapping.applyTo settingsFile).run (oneFile "abba") = (.ok true, oneFile "abababa") ∧
      (overlapping.revertIn settingsFile).run (oneFile "abababa") = (.ok true, oneFile "baba") := by
  have happly : overlapping.apply settingsFile.toString "abba".toList = .ok (some "abababa".toList) := rfl
  have hrevert : overlapping.revert "abababa".toList = .ok (.removed "baba".toList) := rfl
  constructor
  · rw [run_applyTo_eq (by decide) (hasFile_oneFile _), happly]
    rfl
  · rw [run_revertIn_of_removed (by decide) (hasFile_oneFile _) hrevert]
    rfl

end Insertion
end Patch
end ModuleLink
