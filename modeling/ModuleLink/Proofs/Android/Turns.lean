import ModuleLink.Android.Registration
import ModuleLink.Proofs.Patch.Files

/-!
Insertions made one after another.  In its turn an insertion is made, or has no text, or cannot be made and is left to
be made by hand.
-/

namespace ModuleLink
namespace Android

open Patch Insertion Workspace

variable {p : Insertion} {a : Anchor} {path q : Path} {content : String} {left : List String} {w w' : Workspace}

/-! ## One insertion -/

/-- A fault that leaves an insertion to be made by hand is no fault of the run. -/
theorem run_insert_eq {names : List String} (hempty : p.isEmpty = false)
    (hfile : w.tree.HasFile path names content.toUTF8) :
    (insert path p).run w = match p.apply path.toString content.toList with
      | .ok (some changed) => (.ok [], { w with tree := w.tree.overwrite names (String.ofList changed).toUTF8 })
      | .ok none => (.ok [], w)
      | .error f => (match f.instruction? with | some instruction => .ok [instruction] | none => .error f, w) := by
  have hlook : (look fun t => t.isFile path).run w = (.ok true, w) := by
    rw [run_look, Tree.isFile_of_readText (Tree.readText_of_hasFile hfile)]
  have happly := run_applyTo_eq hempty hfile
  simp only [insert, hempty, Bool.false_eq_true, if_false]
  rw [Attempt.run_bind_ok hlook]
  simp only [Bool.not_true, Bool.false_eq_true, if_false]
  rcases hresult : p.apply path.toString content.toList with f | _ | changed
  · rw [hresult] at happly
    rw [Attempt.run_bind_ok (Attempt.run_outcome happly)]
    simp only
    cases f.instruction? <;> rfl
  · rw [hresult] at happly
    rw [Attempt.run_bind_ok (Attempt.run_outcome happly)]
    rfl
  · rw [hresult] at happly
    rw [Attempt.run_bind_ok (Attempt.run_outcome happly)]
    rfl

/-- An insertion for a file that is missing is left to be made by hand. -/
theorem run_insert_of_missing (hempty : p.isEmpty = false) {r : String}
    (hread : w.tree.readText path = .error (.inaccessible .missing r)) :
    ∃ instruction, (insert path p).run w = (.ok [instruction], w) := by
  have hlook : (look fun t => t.isFile path).run w = (.ok false, w) := by
    rw [run_look, Tree.isFile_of_missing hread]
  simp only [insert, hempty, Bool.false_eq_true, if_false]
  rw [Attempt.run_bind_ok hlook]
  exact ⟨_, rfl⟩

/-- A file that cannot be read stays as it is, and the insertion is not made. -/
theorem run_insert_of_error (hempty : p.isEmpty = false) {f : Fault} (hread : w.tree.readText path = .error f) :
    ∃ r, (insert path p).run w = (r, w) ∧ r ≠ .ok [] := by
  have hrun : (p.applyTo path).run w = (.error f, w) := by
    simp only [applyTo, hempty, Bool.false_eq_true, if_false]
    rw [Attempt.run_bind_error (by rw [run_readText, hread])]
  simp only [insert, hempty, Bool.false_eq_true, if_false]
  rw [Attempt.run_bind, run_look]
  rcases w.tree.isFile path with e | _ | _
  · exact ⟨_, rfl, by simp⟩
  · exact ⟨_, rfl, by simp⟩
  · simp only [Bool.not_true, Bool.false_eq_true, if_false]
    rw [Attempt.run_bind_ok (Attempt.run_outcome hrun)]
    simp only
    cases f.instruction? with
    | some instruction => exact ⟨_, rfl, by simp⟩
    | none => exact ⟨_, rfl, by simp⟩

/-- An insertion that is there already, or has no text, changes nothing. -/
theorem run_insert_of_isApplied (h : p.isApplied w.tree path = .ok true) : (insert path p).run w = (.ok [], w) := by
  cases hempty : p.isEmpty with
  | true =>
    simp only [insert, hempty, if_true]
    rfl
  | false =>
    obtain ⟨content, hread, hin⟩ := isApplied_eq_true hempty h
    obtain ⟨names, hfile⟩ := Tree.hasFile_of_readText hread
    rw [run_insert_eq hempty hfile, apply_eq_none (by rw [hin, Bool.or_true])]

/-- An insertion behind an anchor never fails on a file that is missing or has a text. -/
theorem exists_run_insert (hp : p.IsBehind a) (hfile : w.tree.IsTextOrMissing path) :
    ∃ left w', (insert path p).run w = (.ok left, w') := by
  cases hempty : p.isEmpty with
  | true => exact ⟨[], w, run_insert_of_isApplied (by rw [isApplied, hempty, if_pos rfl])⟩
  | false =>
    rcases hfile with ⟨content, hread⟩ | ⟨r, hread⟩
    · obtain ⟨names, hfile⟩ := Tree.hasFile_of_readText hread
      rw [run_insert_eq hempty hfile]
      rcases apply_cases hp path.toString content.toList with ⟨h, -⟩ | ⟨changed, h, -⟩ | ⟨f, h, hinstruction, -⟩
      · exact ⟨_, _, by rw [h]⟩
      · exact ⟨_, _, by rw [h]⟩
      · obtain ⟨instruction, hsome⟩ := Option.isSome_iff_exists.mp hinstruction
        exact ⟨[instruction], w, by simp only [h, hsome]⟩
    · obtain ⟨instruction, hrun⟩ := run_insert_of_missing hempty hread
      exact ⟨_, _, hrun⟩

/-- Making an insertion leaves the workspace alone, or writes over the file at the path. -/
theorem run_insert_cases (p : Insertion) (path : Path) (w : Workspace) :
    ((insert path p).run w).2 = w ∨
      ∃ names content changed, w.tree.HasFile path names (String.toUTF8 content) ∧
        p.apply path.toString content.toList = .ok (some changed) ∧
        ((insert path p).run w).2 = { w with tree := w.tree.overwrite names (String.ofList changed).toUTF8 } := by
  cases hempty : p.isEmpty with
  | true =>
    rw [run_insert_of_isApplied (by rw [isApplied, hempty, if_pos rfl])]
    exact Or.inl rfl
  | false =>
    cases hread : w.tree.readText path with
    | ok content =>
      obtain ⟨names, hfile⟩ := Tree.hasFile_of_readText hread
      rw [run_insert_eq hempty hfile]
      rcases happly : p.apply path.toString content.toList with f | _ | changed
      · exact Or.inl rfl
      · exact Or.inl rfl
      · exact Or.inr ⟨names, content, changed, hfile, happly, rfl⟩
    | error f =>
      obtain ⟨r, hrun, -⟩ := run_insert_of_error hempty hread
      exact Or.inl (congrArg Prod.snd hrun)

theorem locate_insert (p : Insertion) (path : Path) (w : Workspace) :
    ((insert path p).run w).2.tree.locate = w.tree.locate := by
  rcases run_insert_cases p path w with hsame | ⟨names, content, changed, hfile, -, hsame⟩
  · rw [hsame]
  · rw [hsame]
    exact funext (Tree.locate_overwrite hfile.node)

/-- Making an insertion leaves every other file as it was. -/
theorem keeps_insert (p : Insertion) {t : Tree} (hq : t.Apart path q) (r : Except Fault String) :
    Attempt.Keeps (fun w : Workspace => w.tree.locate = t.locate ∧ w.tree.readText q = r) (insert path p) := by
  rintro w ⟨hloc, hread⟩
  rcases run_insert_cases p path w with hsame | ⟨names, content, changed, hfile, -, hsame⟩
  · rw [hsame]
    exact ⟨hloc, hread⟩
  · have hne : w.tree.locate q ≠ .ok names := hq.congr hloc names hfile.located
    rw [hsame]
    exact ⟨by rw [← hloc]; exact funext (Tree.locate_overwrite hfile.node),
      by rw [Tree.readText_overwrite_of_ne hfile hne, hread]⟩

/-- An insertion that has no place in its file leaves the file as it was. -/
theorem keeps_insert_of_not_fits (hp : p.IsBehind a) {t : Tree} (h : ¬p.Fits path t) :
    Attempt.Keeps (fun w : Workspace => w.tree.locate = t.locate ∧ w.tree.readText path = t.readText path)
      (insert path p) := by
  rintro w ⟨hloc, hread⟩
  rcases run_insert_cases p path w with hsame | ⟨names, content, changed, hfile, happly, -⟩
  · rw [hsame]
    exact ⟨hloc, hread⟩
  · exfalso
    rcases apply_cases hp path.toString content.toList with ⟨hnone, -⟩ | ⟨changed', -, hmade⟩ | ⟨f, herror, -⟩
    · simp [hnone] at happly
    · exact h ((MadeIn.fits ⟨names, content, changed', hfile, hmade, rfl⟩).congr hread.symm)
    · simp [herror] at happly

/-! ## One turn -/

/-- What comes of an insertion in its turn. -/
inductive Turn (path : Path) (p : Insertion) (w : Workspace) : Workspace → List String → Prop
  | empty : p.isEmpty = true → Turn path p w w []
  | made {w' : Workspace} : p.MadeIn path w w' → Turn path p w w' []
  | missed {left : List String} : p.isEmpty = false → p.isApplied w.tree path = .ok false → ¬p.Fits path w.tree →
      left ≠ [] → Turn path p w w left

theorem Turn.here (h : Turn path p w w' left) : w'.tree.here = w.tree.here := by
  cases h with
  | empty | missed => rfl
  | made hmade => exact hmade.here

theorem Turn.locate (h : Turn path p w w' left) : w'.tree.locate = w.tree.locate := by
  cases h with
  | empty | missed => rfl
  | made hmade => exact hmade.locate

theorem Turn.readText_of_apart (h : Turn path p w w' left) (hq : w.tree.Apart path q) :
    w'.tree.readText q = w.tree.readText q := by
  cases h with
  | empty | missed => rfl
  | made hmade => exact hmade.readText_of_apart hq

theorem Turn.isTextOrMissing_iff (h : Turn path p w w' left) :
    w'.tree.IsTextOrMissing q ↔ w.tree.IsTextOrMissing q := by
  cases h with
  | empty | missed => rfl
  | made hmade => exact hmade.isTextOrMissing_iff

/-- An insertion with a text found its file with a text, or not at all. -/
theorem Turn.isTextOrMissing_self (h : Turn path p w w' left) (hp : p.isEmpty = false) :
    w'.tree.IsTextOrMissing path := by
  cases h with
  | empty hempty => rw [hp] at hempty; contradiction
  | made hmade =>
    obtain ⟨changed, hread, -⟩ := hmade.readText
    exact Or.inl ⟨_, hread⟩
  | missed _ hfalse _ _ => exact isTextOrMissing_of_isApplied hp hfalse

/-- What happened in a turn is undone by taking the insertion out. -/
theorem Turn.trail {rest : List (Path × Insertion)} {w₁ : Workspace} (h : Turn path p w w₁ left)
    (hrest : Trail rest w₁ w') : Trail ((path, p) :: rest) w w' := by
  cases h with
  | empty hempty => exact .idle (Or.inl hempty) hrest
  | made hmade => exact .made hmade hrest
  | missed _ hfalse _ _ => exact .idle (Or.inr hfalse) hrest

/-- An insertion behind an anchor, whose text is not in the file yet, takes one of the three turns. -/
theorem turn_of_run_insert (hp : p.IsBehind a) (hfresh : p.isEmpty = true ∨ p.isApplied w.tree path = .ok false)
    (h : (insert path p).run w = (.ok left, w')) : Turn path p w w' left := by
  cases hempty : p.isEmpty with
  | true =>
    simp only [insert, hempty, if_true] at h
    obtain ⟨rfl, rfl⟩ := Attempt.run_pure_eq_ok h
    exact .empty hempty
  | false =>
    have hfalse : p.isApplied w.tree path = .ok false := hfresh.resolve_left (by simp [hempty])
    rcases isApplied_eq_false hempty hfalse with ⟨content, hread, hin⟩ | ⟨r, hread⟩
    · obtain ⟨names, hfile⟩ := Tree.hasFile_of_readText hread
      rw [run_insert_eq hempty hfile] at h
      rcases apply_cases hp path.toString content.toList with
        ⟨-, hthere⟩ | ⟨changed, happly, hmade⟩ | ⟨f, happly, hinstruction, hplaces⟩
      · simp [hempty, hin] at hthere
      · rw [happly] at h
        obtain ⟨hleft, rfl⟩ := Prod.mk.inj h
        obtain rfl := Except.ok.inj hleft
        exact .made ⟨names, content, changed, hfile, hmade, rfl⟩
      · obtain ⟨instruction, hsome⟩ := Option.isSome_iff_exists.mp hinstruction
        simp only [happly, hsome] at h
        obtain ⟨hleft, rfl⟩ := Prod.mk.inj h
        obtain rfl := Except.ok.inj hleft
        refine .missed hempty hfalse ?_ (by simp)
        rintro ⟨a', content', s, e, ha', hread', hplaces'⟩
        obtain rfl : a = a' := by simpa [hp.anchor] using ha'
        obtain rfl : content = content' := by simpa [hread] using hread'
        exact hplaces s e hplaces'
    · obtain ⟨instruction, hrun⟩ := run_insert_of_missing hempty hread
      rw [hrun] at h
      obtain ⟨hleft, rfl⟩ := Prod.mk.inj h
      obtain rfl := Except.ok.inj hleft
      refine .missed hempty hfalse ?_ (by simp)
      rintro ⟨a', content, s, e, -, hread', -⟩
      rw [hread] at hread'
      contradiction

/-- An insertion that leaves nothing to do by hand has its text in the file. -/
theorem isApplied_of_run_insert (hp : p.IsBehind a) (h : (insert path p).run w = (.ok [], w')) :
    p.isApplied w'.tree path = .ok true := by
  cases hempty : p.isEmpty with
  | true => rw [isApplied, hempty, if_pos rfl]
  | false =>
    cases happlied : p.isApplied w.tree path with
    | ok b =>
      cases b with
      | true =>
        rw [run_insert_of_isApplied happlied] at h
        rw [← (Prod.mk.inj h).2, happlied]
      | false =>
        cases turn_of_run_insert hp (.inr happlied) h with
        | empty hempty' => simp [hempty] at hempty'
        | made hmade => exact hmade.isApplied
        | missed _ _ _ hleft => exact absurd rfl hleft
    | error f =>
      have hread : ∃ f, w.tree.readText path = .error f := by
        cases hread : w.tree.readText path with
        | ok content => simp [isApplied, hempty, hread] at happlied
        | error f => exact ⟨f, rfl⟩
      obtain ⟨f, hread⟩ := hread
      obtain ⟨r, hrun, hr⟩ := run_insert_of_error hempty hread
      rw [hrun] at h
      exact absurd (Prod.mk.inj h).1 hr

/-! ## All turns -/

/-- What comes of a list of insertions, each in its turn. -/
inductive Turns : List (Path × Insertion) → Workspace → Workspace → List String → Prop
  | done (w : Workspace) : Turns [] w w []
  | next {path : Path} {p : Insertion} {rest : List (Path × Insertion)} {w w₁ w' : Workspace}
      {left left' : List String} :
      Turn path p w w₁ left → Turns rest w₁ w' left' → Turns ((path, p) :: rest) w w' (left ++ left')

/-- Every insertion that has a text comes to a file that does not hold the text yet. -/
def FreshInTurn : List (Path × Insertion) → Workspace → Prop
  | [], _ => True
  | (path, p) :: rest, w =>
    (p.isEmpty = true ∨ p.isApplied w.tree path = .ok false) ∧ FreshInTurn rest ((insert path p).run w).2

instance decidableFreshInTurn : (ps : List (Path × Insertion)) → (w : Workspace) → Decidable (FreshInTurn ps w)
  | [], _ => isTrue trivial
  | (path, p) :: rest, w =>
    have := decidableFreshInTurn rest ((insert path p).run w).2
    inferInstanceAs (Decidable (_ ∧ _))

theorem turns_of_run_mapM {ps : List (Path × Insertion)} (hps : ∀ x ∈ ps, ∃ a, x.2.IsBehind a)
    (hfresh : FreshInTurn ps w) {lefts : List (List String)}
    (h : (ps.mapM fun x => insert x.1 x.2).run w = (.ok lefts, w')) : Turns ps w w' lefts.flatten := by
  induction ps generalizing w lefts with
  | nil =>
    rw [List.mapM_nil] at h
    obtain ⟨rfl, rfl⟩ := Attempt.run_pure_eq_ok h
    exact .done w
  | cons x rest ih =>
    obtain ⟨path, p⟩ := x
    rw [List.mapM_cons] at h
    obtain ⟨left, w₁, hinsert, h⟩ := Attempt.run_bind_eq_ok h
    obtain ⟨lefts', w₂, hrest, h⟩ := Attempt.run_bind_eq_ok h
    obtain ⟨rfl, rfl⟩ := Attempt.run_pure_eq_ok h
    obtain ⟨hhere, hthere⟩ := hfresh
    obtain ⟨a, ha⟩ := hps (path, p) (by simp)
    rw [show (insert path p).run w = _ from hinsert] at hthere
    rw [List.flatten_cons]
    exact .next (turn_of_run_insert ha hhere hinsert) (ih (fun y hy => hps y (by simp [hy])) hthere hrest)

/-- Whatever came of the insertions can be undone by taking them out. -/
theorem Turns.trail {ps : List (Path × Insertion)} (h : Turns ps w w' left) : Trail ps w w' := by
  induction h with
  | done w => exact .done w
  | next hturn _ ih => exact hturn.trail ih

variable {ps bs : List (Path × Insertion)}

theorem turns_cons (h : Turns ((path, p) :: ps) w w' left) :
    ∃ w₁ l l', Turn path p w w₁ l ∧ Turns ps w₁ w' l' ∧ left = l ++ l' := by
  cases h with
  | next hturn hrest => exact ⟨_, _, _, hturn, hrest, rfl⟩

theorem Turns.here (h : Turns ps w w' left) : w'.tree.here = w.tree.here := by
  induction h with
  | done w => rfl
  | next hturn _ ih => rw [ih, hturn.here]

theorem Turns.locate (h : Turns ps w w' left) : w'.tree.locate = w.tree.locate := by
  induction h with
  | done w => rfl
  | next hturn _ ih => rw [ih, hturn.locate]

/-- Other files keep their text. -/
theorem Turns.readText_of_apart (h : Turns ps w w' left) (hq : ∀ x ∈ ps, w.tree.Apart x.1 q) :
    w'.tree.readText q = w.tree.readText q := by
  induction h with
  | done w => rfl
  | next hturn _ ih =>
    rw [ih fun x hx => (hq x (by simp [hx])).congr hturn.locate, hturn.readText_of_apart (hq _ List.mem_cons_self)]

theorem Turns.isTextOrMissing_iff (h : Turns ps w w' left) :
    w'.tree.IsTextOrMissing q ↔ w.tree.IsTextOrMissing q := by
  induction h with
  | done w => rfl
  | next hturn _ ih => exact ih.trans hturn.isTextOrMissing_iff

/-- Every file that an insertion with a text was for is a file with a text, or missing. -/
theorem Turns.isTextOrMissing_of_mem (h : Turns ps w w' left) (hp : (path, p) ∈ ps) (hempty : p.isEmpty = false) :
    w'.tree.IsTextOrMissing path := by
  induction h with
  | done w => simp at hp
  | next hturn hrest ih =>
    rcases List.mem_cons.mp hp with e | hp
    · obtain ⟨rfl, rfl⟩ := Prod.mk.inj e
      exact hrest.isTextOrMissing_iff.mpr (hturn.isTextOrMissing_self hempty)
    · exact ih hp

/-- The turn of one insertion, whose file the insertions before it leave alone. -/
theorem Turns.turn (as : List (Path × Insertion)) (h : Turns (as ++ (path, p) :: bs) w w' left)
    (has : ∀ x ∈ as, w.tree.Apart x.1 path) :
    ∃ w₁ w₂ l₁ l l₂, Turns as w w₁ l₁ ∧ Turn path p w₁ w₂ l ∧ Turns bs w₂ w' l₂ ∧ left = l₁ ++ (l ++ l₂) ∧
      w₁.tree.readText path = w.tree.readText path := by
  induction as generalizing w left with
  | nil =>
    cases h with
    | next hturn hrest => exact ⟨w, _, [], _, _, .done w, hturn, hrest, rfl, rfl⟩
  | cons x as ih =>
    cases h with
    | next hturn hrest =>
      obtain ⟨w₁, w₂, l₁, l, l₂, has', hturn', hbs, rfl, hread⟩ :=
        ih hrest fun y hy => (has y (by simp [hy])).congr hturn.locate
      have hhere := hturn.readText_of_apart (has _ List.mem_cons_self)
      exact ⟨w₁, w₂, _, l, l₂, .next hturn has', hturn', hbs, by rw [List.append_assoc], hread.trans hhere⟩

/-- An insertion that has its file for itself is there in the end exactly if it had a place in the beginning. -/
theorem Turns.isApplied_cases (as : List (Path × Insertion)) (h : Turns (as ++ (path, p) :: bs) w w' left)
    (has : ∀ x ∈ as, w.tree.Apart x.1 path) (hbs : ∀ x ∈ bs, w.tree.Apart x.1 path) (hempty : p.isEmpty = false) :
    (p.Fits path w.tree ∧ p.isApplied w'.tree path = .ok true) ∨
      (¬p.Fits path w.tree ∧ p.isApplied w'.tree path = .ok false) := by
  obtain ⟨w₁, w₂, l₁, l, l₂, hbefore, hturn, hbehind, -, hread⟩ := Turns.turn as h has
  have hloc : w₂.tree.locate = w.tree.locate := by rw [hturn.locate, hbefore.locate]
  rw [isApplied_congr (hbehind.readText_of_apart fun x hx => (hbs x hx).congr hloc)]
  cases hturn with
  | empty hnil => simp [hempty] at hnil
  | made hmade => exact .inl ⟨hmade.fits.congr hread.symm, hmade.isApplied⟩
  | missed _ hfalse hfits _ => exact .inr ⟨fun hthere => hfits (hthere.congr hread), hfalse⟩

/-! ## Runs over all insertions -/

/-- Insertions that are all there already change nothing. -/
theorem run_inserts_of_isApplied (h : ∀ x ∈ ps, x.2.isApplied w.tree x.1 = .ok true) :
    (ps.mapM fun x => insert x.1 x.2).run w = (.ok (ps.map fun _ => []), w) := by
  induction ps with
  | nil => rfl
  | cons x ps ih =>
    rw [List.forall_mem_cons] at h
    rw [List.mapM_cons, Attempt.run_bind_ok (run_insert_of_isApplied h.1), Attempt.run_bind_ok (ih h.2)]
    rfl

/-- Where insertions leave nothing to do by hand, each one has its text in its file, if those behind it go into other
files. -/
theorem isApplied_of_run_inserts (as : List (Path × Insertion)) (hp : p.IsBehind a)
    (hbs : ∀ x ∈ bs, w.tree.Apart x.1 path) {lefts : List (List String)}
    (h : ((as ++ (path, p) :: bs).mapM fun x => insert x.1 x.2).run w = (.ok lefts, w')) (hnone : lefts.flatten = []) :
    p.isApplied w'.tree path = .ok true := by
  induction as generalizing w lefts with
  | nil =>
    rw [List.nil_append, List.mapM_cons] at h
    obtain ⟨left, w₁, hinsert, h⟩ := Attempt.run_bind_eq_ok h
    obtain ⟨lefts', w₂, hrest, h⟩ := Attempt.run_bind_eq_ok h
    obtain ⟨rfl, rfl⟩ := Attempt.run_pure_eq_ok h
    obtain ⟨rfl, -⟩ : left = [] ∧ lefts'.flatten = [] := List.append_eq_nil_iff.mp hnone
    have hloc : w₁.tree.locate = w.tree.locate := by
      rw [← locate_insert p path w]
      exact congrArg (fun x => x.2.tree.locate) hinsert.symm
    have hkept := Attempt.keeps_mapM (fun x hx => keeps_insert x.2 ((hbs x hx).congr hloc) (w₁.tree.readText path)) w₁
      ⟨rfl, rfl⟩
    rw [hrest] at hkept
    rw [isApplied_congr hkept.2]
    exact isApplied_of_run_insert hp hinsert
  | cons x as ih =>
    rw [List.cons_append, List.mapM_cons] at h
    obtain ⟨left, w₁, hinsert, h⟩ := Attempt.run_bind_eq_ok h
    obtain ⟨lefts', w₂, hrest, h⟩ := Attempt.run_bind_eq_ok h
    obtain ⟨rfl, rfl⟩ := Attempt.run_pure_eq_ok h
    have hloc : w₁.tree.locate = w.tree.locate := by
      rw [← locate_insert x.2 x.1 w]
      exact congrArg (fun x => x.2.tree.locate) hinsert.symm
    exact ih (fun y hy => (hbs y hy).congr hloc) hrest (List.append_eq_nil_iff.mp hnone).2

/-- Insertions behind anchors never fail on files that are missing or have a text. -/
theorem exists_run_inserts (hps : ∀ x ∈ ps, ∃ a, x.2.IsBehind a) (hfiles : ∀ x ∈ ps, w.tree.IsTextOrMissing x.1) :
    ∃ lefts w', (ps.mapM fun x => insert x.1 x.2).run w = (.ok lefts, w') := by
  induction ps generalizing w with
  | nil => exact ⟨[], w, rfl⟩
  | cons x ps ih =>
    rw [List.forall_mem_cons] at hps hfiles
    obtain ⟨a, ha⟩ := hps.1
    obtain ⟨left, w₁, hrun⟩ := exists_run_insert ha hfiles.1
    have hfiles' : ∀ y ∈ ps, w₁.tree.IsTextOrMissing y.1 := by
      intro y hy
      have hw₁ : w₁ = ((insert x.1 x.2).run w).2 := by rw [hrun]
      rcases run_insert_cases x.2 x.1 w with hsame | ⟨names, content, changed, hfile, -, hsame⟩
      · rw [hw₁, hsame]
        exact hfiles.2 y hy
      · rw [hw₁, hsame]
        exact (Tree.isTextOrMissing_overwrite_iff hfile _).mpr (hfiles.2 y hy)
    obtain ⟨lefts, w₂, hrest⟩ := ih hps.2 hfiles'
    exact ⟨left :: lefts, w₂, by
      rw [List.mapM_cons, Attempt.run_bind_ok hrun, Attempt.run_bind_ok hrest]
      rfl⟩

end Android
end ModuleLink
