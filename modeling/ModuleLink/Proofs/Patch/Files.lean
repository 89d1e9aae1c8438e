import ModuleLink.Patch.Apply
import ModuleLink.Proofs.Attempt
import ModuleLink.Proofs.Patch.RoundTrip
import ModuleLink.Proofs.Tree.Write

/-!
Insertions in files.  What one insertion does to a workspace is undone by taking it out, so a chain of insertions is
undone by taking them out in the opposite order.
-/

namespace ModuleLink

namespace Workspace

variable {α : Type} {w : Workspace} {path : Path}

theorem run_look (question : Tree → Except Fault α) (w : Workspace) :
    (look question).run w = (question w.tree, w) := rfl

theorem run_readText (path : Path) (w : Workspace) : (readText path).run w = (w.tree.readText path, w) := rfl

theorem run_writeText {names : List String} {old : ByteArray} (h : w.tree.HasFile path names old) (text : String) :
    (writeText path text).run w = (.ok (), { w with tree := w.tree.overwrite names text.toUTF8 }) := by
  have hlook : (look fun t => t.write path text).run w = (.ok (w.tree.overwrite names text.toUTF8), w) := by
    rw [run_look, h.write]
  rw [writeText, Attempt.run_bind_ok hlook]
  rfl

end Workspace

namespace Patch
namespace Insertion

open Workspace

variable {p : Insertion} {a : Anchor} {path : Path} {content : String} {w w' : Workspace}

/-! ## One insertion -/

/-- The insertion is made in the file at the path, and nothing else happens. -/
def MadeIn (p : Insertion) (path : Path) (w w' : Workspace) : Prop :=
  ∃ names content changed, w.tree.HasFile path names (String.toUTF8 content) ∧
    p.Made content.toList changed ∧
    w' = { w with tree := w.tree.overwrite names (String.ofList changed).toUTF8 }

/-- The anchor has exactly one place in the file at the path. -/
def Fits (p : Insertion) (path : Path) (t : Tree) : Prop :=
  ∃ a content s e, p.anchor = some a ∧ t.readText path = .ok content ∧ a.places content.toList = [(s, e)]

theorem Fits.congr {t u : Tree} (h : p.Fits path t) (hread : u.readText path = t.readText path) : p.Fits path u := by
  rw [Fits, hread]
  exact h

/-- There is nothing of the insertion at the path to be taken out: it is empty, or the file is not there or does not
hold its text. -/
def IsIdle (p : Insertion) (path : Path) (t : Tree) : Prop := p.isEmpty = true ∨ p.isApplied t path = .ok false

theorem isApplied_eq_false (hempty : p.isEmpty = false) {t : Tree} (h : p.isApplied t path = .ok false) :
    (∃ content, t.readText path = .ok content ∧ p.isIn content.toList = false) ∨
      ∃ q, t.readText path = .error (.inaccessible .missing q) := by
  rw [isApplied, hempty] at h
  simp only [Bool.false_eq_true, if_false] at h
  split at h
  next content hread => exact Or.inl ⟨content, hread, by simpa using h⟩
  next q hread => exact Or.inr ⟨q, hread⟩
  · contradiction

theorem isApplied_eq_true (hempty : p.isEmpty = false) {t : Tree} (h : p.isApplied t path = .ok true) :
    ∃ content, t.readText path = .ok content ∧ p.isIn content.toList = true := by
  rw [isApplied, hempty] at h
  simp only [Bool.false_eq_true, if_false] at h
  split at h
  next content hread => exact ⟨content, hread, by simpa using h⟩
  · simp at h
  · contradiction

/-- Where a text can be looked for there is a file with a text, or none. -/
theorem isTextOrMissing_of_isApplied {b : Bool} (hempty : p.isEmpty = false) {t : Tree} (h : p.isApplied t path = .ok b) :
    t.IsTextOrMissing path := by
  cases b with
  | true =>
    obtain ⟨content, hread, -⟩ := isApplied_eq_true hempty h
    exact Or.inl ⟨content, hread⟩
  | false =>
    rcases isApplied_eq_false hempty h with ⟨content, hread, -⟩ | hmissing
    · exact Or.inl ⟨content, hread⟩
    · exact Or.inr hmissing

theorem isApplied_congr {t u : Tree} (hread : u.readText path = t.readText path) :
    p.isApplied u path = p.isApplied t path := by
  rw [Insertion.isApplied, Insertion.isApplied, hread]

theorem MadeIn.readText (h : p.MadeIn path w w') :
    ∃ changed : List Char, w'.tree.readText path = .ok (String.ofList changed) ∧ p.isIn changed = true := by
  obtain ⟨names, content, changed, hfile, hmade, rfl⟩ := h
  exact ⟨changed, Tree.readText_of_hasFile (hfile.overwrite _), hmade.isIn⟩

theorem MadeIn.isApplied (h : p.MadeIn path w w') : p.isApplied w'.tree path = .ok true := by
  have hempty : p.isEmpty = false := by
    obtain ⟨names, content, changed, -, hmade, -⟩ := h
    exact hmade.nonempty
  obtain ⟨changed, hread, hin⟩ := h.readText
  rw [Insertion.isApplied, hempty, hread]
  simp [hin]

theorem MadeIn.fits (h : p.MadeIn path w w') : p.Fits path w.tree := by
  obtain ⟨names, content, changed, hfile, hmade, -⟩ := h
  obtain ⟨a, s, e, hp, hplaces, -⟩ := hmade.split
  exact ⟨a, content, s, e, hp.anchor, Tree.readText_of_hasFile hfile, hplaces⟩

theorem MadeIn.nonempty (h : p.MadeIn path w w') : p.isEmpty = false := by
  obtain ⟨names, content, changed, -, hmade, -⟩ := h
  exact hmade.nonempty

theorem MadeIn.here (h : p.MadeIn path w w') : w'.tree.here = w.tree.here := by
  obtain ⟨names, content, changed, -, -, rfl⟩ := h
  rfl

theorem MadeIn.locate (h : p.MadeIn path w w') : w'.tree.locate = w.tree.locate := by
  obtain ⟨names, content, changed, hfile, -, rfl⟩ := h
  exact funext (Tree.locate_overwrite hfile.node)

/-- Every other file keeps its text. -/
theorem MadeIn.readText_of_apart {q : Path} (h : p.MadeIn path w w') (hq : w.tree.Apart path q) :
    w'.tree.readText q = w.tree.readText q := by
  obtain ⟨names, content, changed, hfile, -, rfl⟩ := h
  exact Tree.readText_overwrite_of_ne hfile (hq names hfile.located)

/-- Files stay files with a text, and other files stay what they are. -/
theorem MadeIn.isTextOrMissing_iff {q : Path} (h : p.MadeIn path w w') :
    w'.tree.IsTextOrMissing q ↔ w.tree.IsTextOrMissing q := by
  obtain ⟨names, content, changed, hfile, -, rfl⟩ := h
  exact Tree.isTextOrMissing_overwrite_iff hfile _

/-- Making an insertion in a file with a text is decided by what it makes of the text. -/
theorem run_applyTo_eq {names : List String} (hempty : p.isEmpty = false)
    (hfile : w.tree.HasFile path names content.toUTF8) :
    (p.applyTo path).run w = match p.apply path.toString content.toList with
      | .ok (some changed) => (.ok true, { w with tree := w.tree.overwrite names (String.ofList changed).toUTF8 })
      | .ok none => (.ok false, w)
      | .error f => (.error f, w) := by
  simp only [applyTo, hempty, Bool.false_eq_true, if_false]
  rw [Attempt.run_bind_ok (by rw [run_readText, Tree.readText_of_hasFile hfile])]
  rcases p.apply path.toString content.toList with f | _ | changed
  · rw [Attempt.run_bind_error (Attempt.run_ofExcept _ _)]
  · rw [Attempt.run_bind_ok (Attempt.run_ofExcept _ _)]
    rfl
  · rw [Attempt.run_bind_ok (Attempt.run_ofExcept _ _)]
    exact Attempt.run_bind_ok (run_writeText hfile _)

/-- Where it is clear what is to be taken out, it is taken out. -/
theorem run_revertIn_of_removed {names : List String} {changed : List Char} (hempty : p.isEmpty = false)
    (hfile : w.tree.HasFile path names content.toUTF8) (h : p.revert content.toList = .ok (.removed changed)) :
    (p.revertIn path).run w =
      (.ok true, { w with tree := w.tree.overwrite names (String.ofList changed).toUTF8 }) := by
  simp only [revertIn, hempty, Bool.false_eq_true, if_false]
  rw [Attempt.run_bind_ok (Attempt.run_get _), Tree.readText_of_hasFile hfile]
  simp only [h]
  rw [Attempt.run_bind_ok (Attempt.run_ofExcept _ _)]
  exact Attempt.run_bind_ok (run_writeText hfile _)

/-- What was written over a text is taken back, where taking out the insertion gives the text back. -/
theorem run_revertIn_of_overwrite {names : List String} {changed : List Char} (hempty : p.isEmpty = false)
    (hfile : w.tree.HasFile path names content.toUTF8) (h : p.revert changed = .ok (.removed content.toList)) :
    (p.revertIn path).run { w with tree := w.tree.overwrite names (String.ofList changed).toUTF8 } = (.ok true, w) := by
  have hfile' := hfile.overwrite (String.ofList changed).toUTF8
  have hback : (w.tree.overwrite names (String.ofList changed).toUTF8).overwrite names
      (String.ofList content.toList).toUTF8 = w.tree := by
    rw [Tree.overwrite_overwrite hfile.node, String.ofList_toList, Tree.overwrite_same hfile.node]
  rw [run_revertIn_of_removed hempty hfile' (by rw [String.toList_ofList, h])]
  simp only [hback]

/-- A made insertion is taken out again, which leaves the workspace as it was before. -/
theorem run_revertIn_of_madeIn (h : p.MadeIn path w w') : (p.revertIn path).run w' = (.ok true, w) := by
  obtain ⟨names, content, changed, hfile, hmade, rfl⟩ := h
  exact run_revertIn_of_overwrite hmade.nonempty hfile hmade.revert

/-- Where there is nothing to be taken out, nothing happens. -/
theorem run_revertIn_of_isIdle (h : p.IsIdle path w.tree) : (p.revertIn path).run w = (.ok false, w) := by
  cases hempty : p.isEmpty with
  | true =>
    simp only [revertIn, hempty, if_true]
    rfl
  | false =>
    have hfalse : p.isApplied w.tree path = .ok false := h.resolve_left (by simp [hempty])
    simp only [revertIn, hempty, Bool.false_eq_true, if_false]
    rw [Attempt.run_bind_ok (Attempt.run_get w)]
    rcases isApplied_eq_false hempty hfalse with ⟨content, hread, hin⟩ | ⟨q, hread⟩
    · rw [hread]
      simp only [revert_of_not_isIn hin]
      rw [Attempt.run_bind_ok (Attempt.run_ofExcept _ _)]
      rfl
    · rw [hread]
      rfl

/-- Where there is nothing to be taken out, the file stays as it is. -/
theorem keeps_revertIn_of_isIdle {t : Tree} (h : p.IsIdle path t) :
    Attempt.Keeps (fun w : Workspace => w.tree.locate = t.locate ∧ w.tree.readText path = t.readText path)
      (p.revertIn path) := by
  rintro w ⟨hloc, hread⟩
  have hidle : p.IsIdle path w.tree := by
    rw [IsIdle, isApplied_congr hread]
    exact h
  rw [run_revertIn_of_isIdle hidle]
  exact ⟨hloc, hread⟩

/-- Taking out an insertion leaves the tree alone, or writes over the file at the path. -/
theorem run_revertIn_cases (p : Insertion) (path : Path) (w : Workspace) :
    ((p.revertIn path).run w).2.tree = w.tree ∨
      ∃ names content changed, w.tree.HasFile path names (String.toUTF8 content) ∧
        p.revert content.toList = .ok (.removed changed) ∧
        ((p.revertIn path).run w).2.tree = w.tree.overwrite names (String.ofList changed).toUTF8 := by
  cases hempty : p.isEmpty with
  | true =>
    left
    simp only [revertIn, hempty, if_true]
    rfl
  | false =>
    simp only [revertIn, hempty, Bool.false_eq_true, if_false]
    rw [Attempt.run_bind_ok (Attempt.run_get w)]
    split
    · exact Or.inl rfl
    · exact Or.inl rfl
    next content hread =>
    cases hrev : p.revert content.toList with
    | error f =>
      rw [Attempt.run_bind_error (Attempt.run_ofExcept _ _)]
      exact Or.inl rfl
    | ok outcome =>
      rw [Attempt.run_bind_ok (Attempt.run_ofExcept _ _)]
      cases outcome with
      | absent => exact Or.inl rfl
      | ambiguous => exact Or.inl rfl
      | removed changed =>
        obtain ⟨names, hfile⟩ := Tree.hasFile_of_readText hread
        refine Or.inr ⟨names, content, changed, hfile, hrev, ?_⟩
        simp only [Attempt.run_bind_ok (run_writeText hfile _)]
        rfl

theorem locate_revertIn (p : Insertion) (path : Path) (w : Workspace) :
    ((p.revertIn path).run w).2.tree.locate = w.tree.locate := by
  rcases run_revertIn_cases p path w with htree | ⟨names, content, changed, hfile, -, htree⟩
  · rw [htree]
  · rw [htree]
    exact funext (Tree.locate_overwrite hfile.node)

/-- Taking out an insertion leaves every other file as it was. -/
theorem keeps_revertIn (p : Insertion) {path q : Path} {t : Tree} (hq : t.Apart path q)
    (r : Except Fault String) :
    Attempt.Keeps (fun w : Workspace => w.tree.locate = t.locate ∧ w.tree.readText q = r) (p.revertIn path) := by
  rintro w ⟨hloc, hread⟩
  rcases run_revertIn_cases p path w with htree | ⟨names, content, changed, hfile, -, htree⟩
  · rw [htree]
    exact ⟨hloc, hread⟩
  · have hne : w.tree.locate q ≠ .ok names := hq.congr hloc names hfile.located
    rw [htree]
    exact ⟨by rw [← hloc]; exact funext (Tree.locate_overwrite hfile.node),
      by rw [Tree.readText_overwrite_of_ne hfile hne, hread]⟩

end Insertion

/-! ## Several insertions -/

open Workspace Insertion

/-- Takes out one insertion after another. -/
def revertAll : List (Path × Insertion) → Step PUnit
  | [] => return ⟨⟩
  | (path, p) :: rest => do
    let _ ← p.revertIn path
    revertAll rest

theorem forIn_revertIn (ps : List (Path × Insertion)) :
    (forIn ps PUnit.unit fun x _ => do
      let _ ← x.2.revertIn x.1
      return ForInStep.yield PUnit.unit) = revertAll ps := by
  induction ps with
  | nil => rfl
  | cons x rest ih =>
    rw [List.forIn_cons, bind_assoc, revertAll, ← ih]
    simp only [pure_bind]

theorem keeps_revertAll_of {P : Workspace → Prop} (ps : List (Path × Insertion))
    (h : ∀ x ∈ ps, Attempt.Keeps P (x.2.revertIn x.1)) : Attempt.Keeps P (revertAll ps) := by
  induction ps with
  | nil => exact Attempt.keeps_pure _
  | cons x rest ih =>
    have hrest := ih fun y hy => h y (by simp [hy])
    exact (h x (by simp)).bind fun _ => hrest

theorem keeps_revertAll {q : Path} {t : Tree} (ps : List (Path × Insertion))
    (hq : ∀ x ∈ ps, t.Apart x.1 q) (r : Except Fault String) :
    Attempt.Keeps (fun w : Workspace => w.tree.locate = t.locate ∧ w.tree.readText q = r) (revertAll ps) :=
  keeps_revertAll_of ps fun x hx => keeps_revertIn x.2 (hq x hx) r

theorem revertAll_append (ps qs : List (Path × Insertion)) :
    revertAll (ps ++ qs) = revertAll ps >>= fun _ => revertAll qs := by
  induction ps with
  | nil => rw [List.nil_append, revertAll, pure_bind]
  | cons x rest ih => simp only [List.cons_append, revertAll, ih, bind_assoc]

/-- On the way from one workspace to another each of the insertions is made in its turn, or nothing happens where there
is nothing of it to be taken out. -/
inductive Trail : List (Path × Insertion) → Workspace → Workspace → Prop
  | done (w : Workspace) : Trail [] w w
  | made {path : Path} {p : Insertion} {rest : List (Path × Insertion)} {w w₁ w' : Workspace} :
      p.MadeIn path w w₁ → Trail rest w₁ w' → Trail ((path, p) :: rest) w w'
  | idle {path : Path} {p : Insertion} {rest : List (Path × Insertion)} {w w' : Workspace} :
      p.IsIdle path w.tree → Trail rest w w' → Trail ((path, p) :: rest) w w'

theorem trail_of_isIdle {ps : List (Path × Insertion)} {w : Workspace} (h : ∀ x ∈ ps, x.2.IsIdle x.1 w.tree) :
    Trail ps w w := by
  induction ps with
  | nil => exact .done w
  | cons x ps ih =>
    rw [List.forall_mem_cons] at h
    exact .idle h.1 (ih h.2)

/-- Taking out the insertions of a trail, last one first, leads back to its start. -/
theorem Trail.run_revertAll {ps : List (Path × Insertion)} {w w' : Workspace} (h : Trail ps w w') :
    (revertAll ps.reverse).run w' = (.ok ⟨⟩, w) := by
  induction h with
  | done w => rfl
  | made hmade _ ih =>
    rw [List.reverse_cons, revertAll_append, Attempt.run_bind_ok ih]
    exact Attempt.run_bind_ok (run_revertIn_of_madeIn hmade)
  | idle hidle _ ih =>
    rw [List.reverse_cons, revertAll_append, Attempt.run_bind_ok ih]
    exact Attempt.run_bind_ok (run_revertIn_of_isIdle hidle)

/-- Behind a trail that leads anywhere else there is an insertion whose text is in its file. -/
theorem Trail.exists_isApplied {ps : List (Path × Insertion)} {w w' : Workspace} (h : Trail ps w w')
    (hne : w' ≠ w) : ∃ x ∈ ps, x.2.isEmpty = false ∧ x.2.isApplied w'.tree x.1 = .ok true := by
  induction h with
  | done w => exact absurd rfl hne
  | @made path p rest w w₁ w' hmade hrest ih =>
    by_cases hlast : w' = w₁
    · subst hlast
      exact ⟨(path, p), by simp, hmade.nonempty, hmade.isApplied⟩
    · obtain ⟨x, hx, happlied⟩ := ih hlast
      exact ⟨x, by simp [hx], happlied⟩
  | idle hidle hrest ih =>
    obtain ⟨x, hx, happlied⟩ := ih hne
    exact ⟨x, by simp [hx], happlied⟩

theorem exists_isApplied_eq {p : Insertion} {path : Path} {t : Tree} (h : t.IsTextOrMissing path) :
    ∃ b, p.isApplied t path = .ok b := by
  rw [isApplied]
  split
  · exact ⟨_, rfl⟩
  · rcases h with ⟨content, hread⟩ | ⟨q, hread⟩
    · exact ⟨_, by rw [hread]⟩
    · exact ⟨_, by rw [hread]⟩

end Patch
end ModuleLink
