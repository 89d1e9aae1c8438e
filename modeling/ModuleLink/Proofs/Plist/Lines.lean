import Mathlib
import ModuleLink.Proofs.Plist.Rendering

/-!
The lines of a written value.  A value that takes one line when it is written on one holds no line feed of its own, so
as a block it has no lines but those the block is made of.
-/

namespace ModuleLink
namespace Plist

/-- Every line but the first starts with a tab. -/
def Indented (cs : List Char) : Prop := ∀ u v, cs = u ++ '\n' :: v → v.head? = some '\t'

section Indented

variable {a b indent : List Char}

theorem indented_of_notMem (h : '\n' ∉ a) : Indented a := fun u v hsplit =>
  absurd (by rw [hsplit]; simp) h

theorem Indented.append (ha : Indented a) (hb : Indented b) : Indented (a ++ b) := by
  intro u v hsplit
  rcases List.append_eq_append_iff.mp hsplit with ⟨m, -, hm⟩ | ⟨m, hm, hm'⟩
  · exact hb m v hm
  · cases m with
    | nil => exact hb [] v hm'.symm
    | cons c m =>
      obtain ⟨rfl, htail⟩ := List.cons.inj hm'
      rw [show v = m ++ b from htail, List.head?_append, ha u m hm]
      rfl

theorem Indented.line (hb : Indented b) (hhead : b.head? = some '\t') : Indented ('\n' :: b) := by
  intro u v hsplit
  cases u with
  | nil => rwa [← (List.cons.inj hsplit).2]
  | cons c u => exact hb u v (List.cons.inj hsplit).2

/-- Lines one under the other, the first of which starts with a tab too. -/
theorem indented_lines {α : Type} (f : α → List Char) (xs : List α) (hb : Indented b) (hhead : b.head? = some '\t')
    (h : ∀ x ∈ xs, Indented (f x) ∧ (f x).head? = some '\t') :
    Indented (xs.flatMap (fun x => f x ++ ['\n']) ++ b) ∧
      (xs.flatMap (fun x => f x ++ ['\n']) ++ b).head? = some '\t' := by
  induction xs with
  | nil => exact ⟨hb, hhead⟩
  | cons x xs ih =>
    obtain ⟨hrest, hfirst⟩ := ih fun y hy => h y (by simp [hy])
    obtain ⟨hx, hstart⟩ := h x (by simp)
    have hsplit : (x :: xs).flatMap (fun x => f x ++ ['\n']) ++ b =
        f x ++ '\n' :: (xs.flatMap (fun x => f x ++ ['\n']) ++ b) := by simp
    rw [hsplit]
    refine ⟨hx.append (hrest.line hfirst), ?_⟩
    rw [List.head?_append, hstart]
    rfl

/-- The lines of a block start with the indent that it stands under, if its value fits on one line. -/
theorem indented_renderBlock {v : Value} (hv : v.Writable) (hline : '\n' ∉ renderInline v)
    (hindent : '\n' ∉ indent) (htab : indent.head? = some '\t') : Indented (renderBlock indent v) := by
  induction hv generalizing indent with
  | scalar =>
    rw [renderInline] at hline
    rw [renderBlock]
    exact indented_of_notMem hline
  | @list items _ ih =>
    rw [renderInline, renderInlineItems_eq] at hline
    simp only [List.mem_cons, List.mem_append, List.mem_flatMap, not_or, not_exists, not_and] at hline
    have hdeeper : '\n' ∉ indent ++ ['\t'] := by simp [hindent]
    have hdeep : (indent ++ ['\t']).head? = some '\t' := by rw [List.head?_append, htab]; rfl
    have hclose : Indented (indent ++ [')']) := indented_of_notMem (by simp [hindent])
    have hlines := indented_lines (fun v => indent ++ ['\t'] ++ renderBlock (indent ++ ['\t']) v ++ [',']) items
      hclose (by rw [List.head?_append, htab]; rfl) fun v hv => by
        refine ⟨?_, by rw [List.append_assoc, List.head?_append, hdeep]; rfl⟩
        have hblock := ih v hv (hline.1.2 v hv).1.2 hdeeper hdeep
        exact ((indented_of_notMem hdeeper).append hblock).append (indented_of_notMem (by simp))
    have hblock := (indented_of_notMem (show '\n' ∉ ['('] by simp)).append (hlines.1.line hlines.2)
    rw [renderBlock, renderLines_eq, show "(\n".toList = ['(', '\n'] from rfl]
    simpa only [List.append_assoc, List.cons_append, List.nil_append, List.singleton_append] using hblock
  | @dict d _ _ _ ih =>
    rw [show Value.dict d = .dict ⟨d.entries, d.spellings⟩ from rfl, renderInline, renderInlineEntries_eq] at hline
    simp only [List.mem_cons, List.mem_append, List.mem_flatMap, not_or, not_exists, not_and] at hline
    have hdeeper : '\n' ∉ indent ++ ['\t'] := by simp [hindent]
    have hdeep : (indent ++ ['\t']).head? = some '\t' := by rw [List.head?_append, htab]; rfl
    have hclose : Indented (indent ++ ['\x7d']) := indented_of_notMem (by simp [hindent])
    have hlines := indented_lines (fun e => indent ++ ['\t'] ++
        renderScalar ((d.spellings.lookup e.1).getD (Scalar.of e.1)) ++ " = ".toList ++
        renderBlock (indent ++ ['\t']) e.2 ++ [';']) d.entries
      hclose (by rw [List.head?_append, htab]; rfl) fun e he => by
        refine ⟨?_, by simp only [List.append_assoc]; rw [← List.append_assoc, List.head?_append, hdeep]; rfl⟩
        obtain ⟨⟨⟨⟨-, hkey⟩, hequals⟩, hvalue⟩, -⟩ := hline.1.2 e he
        have hblock := ih e he hvalue hdeeper hdeep
        exact ((((indented_of_notMem hdeeper).append (indented_of_notMem hkey)).append
          (indented_of_notMem hequals)).append hblock).append (indented_of_notMem (by simp))
    have hblock := (indented_of_notMem (show '\n' ∉ ['\x7b'] by simp)).append (hlines.1.line hlines.2)
    rw [show Value.dict d = .dict ⟨d.entries, d.spellings⟩ from rfl, renderBlock, renderEntries_eq,
      show "\x7b\n".toList = ['\x7b', '\n'] from rfl]
    simpa only [List.append_assoc, List.cons_append, List.nil_append, List.singleton_append] using hblock

end Indented

end Plist
end ModuleLink
