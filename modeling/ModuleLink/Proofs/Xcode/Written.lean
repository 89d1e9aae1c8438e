import Mathlib
import ModuleLink.Proofs.Xcode.Woven

/-!
The text that a changed graph is written as, when it was read from a text in order: the same lines in front of the
sections, and the sections that are left or new with a blank line between each two.
-/

namespace ModuleLink
namespace Xcode

open Plist Text

variable {L : Layout} {lead gap fs : List Filler} {g : Graph} {s : Section} {k k' : Kind} {n offset : Nat}
  {pre post pre₁ post₁ : List Kind} {t : List Char}

/-! ## Places of sections -/

/-- Sections with a blank line behind each. -/
def behind (ks : List Kind) : List Block := ks.flatMap fun k => [.kind k, .filler blank]

theorem behind_append (ks ks' : List Kind) : behind (ks ++ ks') = behind ks ++ behind ks' := List.flatMap_append

theorem separated_append_cons (pre post : List Kind) (k : Kind) :
    separated (pre ++ k :: post) = behind pre ++ separated (k :: post) := by
  induction pre with
  | nil => rfl
  | cons k' pre ih =>
    rw [List.cons_append, separated_cons k' (by simp), ih]
    rfl

/-- The place where the sections behind the first ones start. -/
def placeBehind (L : Layout) (fs : List Filler) (ks : List Kind) : Nat :=
  L.head.length + (textOf (cellsOf (fs.map .filler ++ behind ks))).length

theorem placeBehind_append (ks ks' : List Kind) :
    placeBehind L fs (ks ++ ks') = placeBehind L fs ks + (textOf (cellsOf (behind ks'))).length := by
  rw [placeBehind, placeBehind, behind_append, ← List.append_assoc, cellsOf_append, textOf_append, List.length_append,
    Nat.add_assoc]

theorem placeBehind_nil : placeBehind L fs [] = L.head.length + (fillersText fs).length := by
  rw [placeBehind, show behind [] = [] from rfl, List.append_nil, textOf_fillers]

theorem length_behind_singleton (k : Kind) :
    (textOf (cellsOf (behind [k]))).length = (textOf k.cells).length + 1 := by
  show (textOf (cellsOf [.kind k, .filler blank])).length = _
  rw [cellsOf_cons, textOf_append, List.length_append]
  rfl

theorem placeBehind_append_singleton (ks : List Kind) (k : Kind) :
    placeBehind L fs (ks ++ [k]) = placeBehind L fs ks + (textOf k.cells).length + 1 := by
  rw [placeBehind_append, length_behind_singleton, Nat.add_assoc]

theorem placeBehind_le (pre : List Kind) (k : Kind) (post : List Kind) :
    placeBehind L fs (pre ++ [k]) ≤ placeBehind L fs (pre ++ k :: post) := by
  rw [List.append_cons pre k post, placeBehind_append (pre ++ [k])]
  exact Nat.le_add_right _ _

/-- Of two sections one is behind the blank line that follows the other. -/
theorem placeBehind_le_or (L : Layout) (fs : List Filler) {k₁ : Kind} (hsplit : pre ++ k :: post = pre₁ ++ k₁ :: post₁)
    (hne : k₁ ≠ k) :
    placeBehind L fs (pre₁ ++ [k₁]) ≤ placeBehind L fs pre ∨ ∃ m, pre₁ = pre ++ k :: m ∧ post = m ++ k₁ :: post₁ := by
  rcases List.append_eq_append_iff.mp hsplit with ⟨m, rfl, hm⟩ | ⟨m, rfl, hm⟩
  · cases m with
    | nil => exact absurd (List.cons.inj hm).1.symm hne
    | cons k' m =>
      obtain ⟨rfl, hpost⟩ := List.cons.inj hm
      exact .inr ⟨m, rfl, hpost⟩
  · cases m with
    | nil => exact absurd (List.cons.inj hm).1 hne
    | cons k' m =>
      obtain ⟨rfl, -⟩ := List.cons.inj hm
      exact .inl (placeBehind_le _ _ m)

/-- The lines of a section with the blank line behind it, and those of the next ones. -/
theorem cellsOf_separated_cons (k k' : Kind) (post : List Kind) : cellsOf (separated (k :: k' :: post)) =
    (k.cells ++ [.part (.filler blank)]) ++ cellsOf (separated (k' :: post)) := by
  rw [separated_cons k (by simp), cellsOf_cons, cellsOf_cons, List.append_assoc]
  rfl

theorem exists_of_mem_separated {ks : List Kind} (hs : s ∈ sectionsIn offset (separated ks)) :
    ∃ pre k post, ks = pre ++ k :: post ∧ s = k.section (offset + (textOf (cellsOf (behind pre))).length) := by
  induction ks generalizing offset with
  | nil => contradiction
  | cons k ks ih =>
    cases ks with
    | nil =>
      obtain rfl := List.mem_singleton.mp hs
      exact ⟨[], k, [], rfl, rfl⟩
    | cons k' ks =>
      have hs : s ∈ k.section offset ::
          sectionsIn (offset + (textOf k.cells).length + blank.text.length) (separated (k' :: ks)) := hs
      rcases List.mem_cons.mp hs with rfl | hs
      · exact ⟨[], k, k' :: ks, rfl, rfl⟩
      · obtain ⟨pre, k₁, post, hks, rfl⟩ := ih hs
        refine ⟨k :: pre, k₁, post, by rw [hks]; rfl, congrArg k₁.section ?_⟩
        have hlen : (textOf (cellsOf (behind (k :: pre)))).length =
            (textOf k.cells).length + 1 + (textOf (cellsOf (behind pre))).length := by
          rw [show behind (k :: pre) = behind [k] ++ behind pre from behind_append [k] pre, cellsOf_append,
            textOf_append, List.length_append, length_behind_singleton]
        rw [hlen, show blank.text.length = 1 from rfl]
        omega

theorem cellsOf_fillers (fs : List Filler) : cellsOf (fs.map .filler) = fs.map fun f => .part (.filler f) := by
  induction fs with
  | nil => rfl
  | cons f fs ih =>
    rw [List.map_cons, cellsOf_cons, ih]
    rfl

theorem sectionsIn_fillers (offset : Nat) (fs : List Filler) : sectionsIn offset (fs.map .filler) = [] := by
  induction fs generalizing offset with
  | nil => rfl
  | cons f fs ih => exact ih _

/-- The lines between a section and what is in front of it. -/
def gapBefore (gap : List Filler) (pre : List Kind) : List Filler := if pre = [] then gap else [blank]

/-- The new sections that go in front of a section behind others. -/
def Writer.newBefore (w : Writer L g) (pre : List Kind) (k : Kind) : List Kind :=
  w.newKinds.filter fun new => g.goesBefore new k && pre.all fun k' => !g.goesBefore new k'

namespace Layout.IsSpaced

/-- The lines from a section on. -/
theorem cells_eq (h : L.IsSpaced lead gap) (hkinds : kindsIn L.blocks = pre ++ k :: post) :
    L.cells = cellsOf ((lead ++ gap).map .filler ++ behind pre) ++ cellsOf (separated (k :: post)) := by
  rw [Layout.cells, h.blocks, hkinds, separated_append_cons, ← List.append_assoc, cellsOf_append]

theorem exists_blocks (h : L.IsSpaced lead gap) (hkinds : kindsIn L.blocks = pre ++ k :: post) :
    ∃ bs, L.blocks = ((lead ++ gap).map .filler ++ behind pre) ++ .kind k :: bs := by
  rw [h.blocks, hkinds, separated_append_cons, ← List.append_assoc]
  cases post with
  | nil => exact ⟨_, rfl⟩
  | cons k' post => exact ⟨_, rfl⟩

/-- Every section stands behind others. -/
theorem exists_section (h : L.IsSpaced lead gap) (hs : s ∈ sectionsIn L.head.length L.blocks) :
    ∃ pre k post, kindsIn L.blocks = pre ++ k :: post ∧ s = k.section (placeBehind L (lead ++ gap) pre) := by
  rw [h.blocks, sectionsIn_append, sectionsIn_fillers, List.nil_append] at hs
  obtain ⟨pre, k, post, hkinds, rfl⟩ := exists_of_mem_separated hs
  refine ⟨pre, k, post, hkinds, congrArg k.section ?_⟩
  rw [placeBehind, cellsOf_append, textOf_append, List.length_append, Nat.add_assoc]

/-- A blank line follows a section that others follow. -/
theorem startsWith_newline (h : L.IsSpaced lead gap) (hkinds : kindsIn L.blocks = pre ++ k :: k' :: post) :
    startsWith ['\n'] (L.text.drop (k.section (placeBehind L (lead ++ gap) pre)).endStop) = true := by
  have hstop : (k.section (placeBehind L (lead ++ gap) pre)).endStop =
      (L.head ++ textOf (cellsOf ((lead ++ gap).map .filler ++ behind pre)) ++ textOf k.cells).length := by
    rw [List.length_append, List.length_append]
    exact k.endStop_sectionAt _
  have htext : L.text = (L.head ++ textOf (cellsOf ((lead ++ gap).map .filler ++ behind pre)) ++ textOf k.cells) ++
      ('\n' :: (textOf (cellsOf (separated (k' :: post))) ++ L.closing)) := by
    rw [Layout.text, h.cells_eq hkinds, cellsOf_separated_cons]
    simp only [textOf_append, List.append_assoc]
    rfl
  rw [hstop, htext, List.drop_left]
  rfl

end Layout.IsSpaced

namespace Rewrites

theorem section_placeBehind (h : Rewrites L lead gap g) (hkinds : kindsIn L.blocks = pre ++ k :: post) :
    k.section (placeBehind L (lead ++ gap) pre) ∈ g.sections := by
  obtain ⟨bs, hblocks⟩ := h.spaced.exists_blocks hkinds
  exact h.section_mem hblocks

theorem isDropped_eq (h : Rewrites L lead gap g) (hk : k ∈ kindsIn L.blocks) (n : Nat) :
    g.isDropped (k.section n) = g.loses k := isDropped_section (h.spaced.filled k hk) n

/-! ## Sections that are taken out -/

/-- A section that others follow goes with the blank line behind it. -/
theorem dropSection_of_next (h : Rewrites L lead gap g) (hkinds : kindsIn L.blocks = pre ++ k :: k' :: post) :
    g.dropSection (k.section (placeBehind L (lead ++ gap) pre)) =
      ⟨placeBehind L (lead ++ gap) pre, placeBehind L (lead ++ gap) (pre ++ [k]), []⟩ := by
  have hcells : L.cells = cellsOf ((lead ++ gap).map .filler ++ behind pre) ++ (k.cells ++ .part (.filler blank) ::
      cellsOf (separated (k' :: post))) := by
    rw [h.spaced.cells_eq hkinds, cellsOf_separated_cons, List.append_assoc k.cells]
    rfl
  have hstop : (k.section (placeBehind L (lead ++ gap) pre)).endStop =
      L.head.length + (textOf (cellsOf ((lead ++ gap).map .filler ++ behind pre))).length + (textOf k.cells).length :=
    k.endStop_sectionAt _
  rcases h.laid.dropSection_cases hcells rfl hstop with ⟨-, f, ds, -, -, hdrop⟩ | ⟨hnot, -⟩
  · rw [hdrop, hstop, placeBehind_append_singleton]
    rfl
  · rw [h.laid.text, h.spaced.startsWith_newline hkinds] at hnot
    contradiction

/-- The lines in front of a section end with those in front of the blank line. -/
theorem exists_before_gap (lead gap : List Filler) (pre : List Kind) : ∃ as,
    cellsOf ((lead ++ gap).map .filler ++ behind pre) = as ++ cellsOf ((gapBefore gap pre).map .filler) ∧
      (pre = [] → as = cellsOf (lead.map .filler)) := by
  cases pre using List.reverseRecOn with
  | nil =>
    refine ⟨cellsOf (lead.map .filler), ?_, fun _ => rfl⟩
    rw [show behind [] = [] from rfl, List.append_nil, List.map_append, cellsOf_append]
    rfl
  | append_singleton pre k =>
    refine ⟨cellsOf ((lead ++ gap).map .filler ++ behind pre) ++ k.cells, ?_, by simp⟩
    rw [behind_append, ← List.append_assoc, cellsOf_append, gapBefore, if_neg (by simp), List.append_assoc]
    rfl

/-- The last section goes with the blank line in front of it, if there is one. -/
theorem dropSection_of_last (h : Rewrites L lead gap g) (hkinds : kindsIn L.blocks = pre ++ [k]) :
    g.dropSection (k.section (placeBehind L (lead ++ gap) pre)) =
      ⟨placeBehind L (lead ++ gap) pre - (fillersText (gapBefore gap pre)).length,
        placeBehind L (lead ++ gap) pre + (textOf k.cells).length, []⟩ := by
  have hcells : L.cells = cellsOf ((lead ++ gap).map .filler ++ behind pre) ++ (k.cells ++ []) := by
    rw [h.spaced.cells_eq hkinds, separated]
    simp [cellsOf, Block.cells]
  have hstop : (k.section (placeBehind L (lead ++ gap) pre)).endStop =
      placeBehind L (lead ++ gap) pre + (textOf k.cells).length := k.endStop_sectionAt _
  have hgap : gapBefore gap pre = [blank] ∨ (gapBefore gap pre = [] ∧ pre = [] ∧ lead.getLast? ≠ some blank) := by
    have hne : kindsIn L.blocks ≠ [] := by rw [hkinds]; simp
    rw [gapBefore]
    split
    next hpre =>
      rcases h.spaced.gap with ⟨rfl, -⟩ | ⟨rfl, hlead⟩
      · exact .inl rfl
      · exact .inr ⟨rfl, hpre, hlead hne⟩
    · exact .inl rfl
  obtain ⟨as, has, hlead⟩ := exists_before_gap lead gap pre
  rcases h.laid.dropSection_cases hcells rfl hstop with ⟨-, f, ds, hnil, -⟩ | ⟨-, ⟨f, ds, hds, hf, hdrop⟩ | ⟨hsingle, hdrop⟩⟩
  · contradiction
  · -- The line in front is blank, so it is the one between the sections.
    rcases hgap with hblank | ⟨hnone, hpre, hlast⟩
    · rw [hdrop, hstop, hblank]
      rfl
    · rw [hnone, hlead hpre, cellsOf_fillers, List.map_nil, show cellsOf [] = [] from rfl, List.append_nil] at has
      have hend := congrArg List.getLast? (has.symm.trans hds)
      rw [List.getLast?_map, List.getLast?_concat] at hend
      obtain ⟨f', hlast', heq⟩ := Option.map_eq_some_iff.mp hend
      obtain rfl := Part.filler.inj (Cell.part.inj heq)
      exact absurd (hlast'.trans (congrArg some (eq_blank hf))) hlast
  · rcases hgap with hblank | ⟨hnone, -, -⟩
    · obtain ⟨u, hu⟩ := L.head_lines.append_textOf as
      refine absurd ⟨u, ?_⟩ hsingle
      rw [has, hblank, textOf_append, ← List.append_assoc, hu, textOf_fillers, List.append_assoc]
      rfl
    · rw [hdrop, hstop, hnone]
      rfl

/-- Where a section that is taken out stands, and how far it reaches. -/
theorem exists_dropped (h : Rewrites L lead gap g) (hs : s ∈ g.sections) (hdropped : g.isDropped s = true) :
    ∃ pre k post, kindsIn L.blocks = pre ++ k :: post ∧ g.loses k = true ∧
      placeBehind L (lead ++ gap) pre ≤
        (g.dropSection s).start + (if post = [] then (fillersText (gapBefore gap pre)).length else 0) ∧
      (g.dropSection s).stop ≤ placeBehind L (lead ++ gap) (pre ++ [k]) := by
  obtain ⟨pre, k, post, hkinds, rfl⟩ := h.spaced.exists_section (h.sections ▸ hs)
  rw [h.isDropped_eq (hkinds ▸ by simp)] at hdropped
  refine ⟨pre, k, post, hkinds, hdropped, ?_⟩
  cases post with
  | nil =>
    rw [h.dropSection_of_last hkinds, if_pos rfl, placeBehind_append_singleton]
    dsimp only
    omega
  | cons k' post =>
    rw [h.dropSection_of_next hkinds]
    exact ⟨Nat.le_add_right _ _, Nat.le_refl _⟩

/-- Of the last two sections one is kept, or the edits that take them out would overlap. -/
theorem kept_before_last (h : Rewrites L lead gap g) (hkinds : kindsIn L.blocks = pre ++ [k, k'])
    (hlost : g.loses k' = true) : g.loses k = false := by
  rw [Bool.eq_false_iff]
  intro hlost'
  have hkinds' : kindsIn L.blocks = (pre ++ [k]) ++ [k'] := by rw [hkinds, List.append_assoc]; rfl
  have hmem {k : Kind} {pre : List Kind} {post : List Kind} (hkinds : kindsIn L.blocks = pre ++ k :: post)
      (hlost : g.loses k = true) : g.dropSection (k.section (placeBehind L (lead ++ gap) pre)) ∈ g.editsInOrder :=
    mem_editsInOrder.mpr (mem_edits.mpr (.inl ⟨_, h.section_placeBehind hkinds,
      (h.isDropped_eq (hkinds ▸ by simp) _).trans hlost, rfl⟩))
  have hfirst := hmem hkinds hlost'
  have hlast := hmem hkinds' hlost
  have hone : (fillersText (gapBefore gap (pre ++ [k]))).length = 1 := by
    rw [gapBefore, if_neg (by simp)]
    rfl
  have hpos := k'.textOf_cells_length_pos
  rw [h.dropSection_of_next hkinds] at hfirst
  rw [h.dropSection_of_last hkinds', hone] at hlast
  have hapart : g.editsInOrder.Pairwise Edit.Apart := h.pairwise.imp fun hle => .inl hle
  have hne : (⟨placeBehind L (lead ++ gap) pre, placeBehind L (lead ++ gap) (pre ++ [k]), []⟩ : Edit) ≠
      ⟨placeBehind L (lead ++ gap) (pre ++ [k]) - 1,
        placeBehind L (lead ++ gap) (pre ++ [k]) + (textOf k'.cells).length, []⟩ := fun heq => by
    have hstop := congrArg Edit.stop heq
    dsimp only at hstop
    omega
  have hor := hapart.forall hfirst hlast hne
  rw [Edit.Apart, placeBehind_append_singleton] at hor
  dsimp only at hor
  omega

/-- If all sections from one on have lost their objects, that one is the last. -/
theorem eq_nil_of_lost (h : Rewrites L lead gap g) (hkinds : kindsIn L.blocks = pre ++ k :: post)
    (hlost : ∀ x ∈ k :: post, g.loses x = true) : post = [] := by
  cases hpost : (k :: post).reverse with
  | nil => simp at hpost
  | cons last rest =>
    cases rest with
    | nil =>
      have hlen := congrArg List.length hpost
      simp only [List.length_reverse, List.length_cons, List.length_nil] at hlen
      exact List.length_eq_zero_iff.mp (by omega)
    | cons last' rest =>
      have hsplit : k :: post = rest.reverse ++ [last', last] := by
        rw [← List.reverse_reverse (k :: post), hpost]
        simp
      rw [hsplit] at hkinds hlost
      have hkept := h.kept_before_last (hkinds.trans (List.append_assoc ..).symm) (hlost last (by simp))
      rw [hlost last' (by simp)] at hkept
      contradiction

/-! ## What becomes of the sections -/

/-- The blank line between two sections stays where the first one is kept, and one of those that follow. -/
theorem pieces_blank (h : Rewrites L lead gap g) (hkinds : kindsIn L.blocks = pre ++ k :: k' :: post)
    (hkept : g.loses k = false) (hlater : ∃ x ∈ k' :: post, g.loses x = false) :
    piecesFrom g.editsInOrder (placeBehind L (lead ++ gap) pre + (textOf k.cells).length)
      ([Cell.part (.filler blank)].map Cell.text) = ['\n'] := by
  have hcells : L.cells = (cellsOf ((lead ++ gap).map .filler ++ behind pre) ++ k.cells) ++
      (cellsOf ([blank].map .filler) ++ cellsOf (separated (k' :: post))) := by
    rw [h.spaced.cells_eq hkinds, cellsOf_separated_cons, List.append_assoc, List.append_assoc]
    rfl
  have hplace : L.head.length + (textOf (cellsOf ((lead ++ gap).map .filler ++ behind pre) ++ k.cells)).length =
      placeBehind L (lead ++ gap) pre + (textOf k.cells).length := by
    rw [textOf_append, List.length_append, ← Nat.add_assoc]
    rfl
  have hblank := h.pieces_fillers hcells fun s hs hdropped => by
    obtain ⟨pre₁, k₁, post₁, hkinds₁, hlost, hstart, hstop⟩ := h.exists_dropped hs hdropped
    have hne : k₁ ≠ k := by
      rintro rfl
      rw [hkept] at hlost
      contradiction
    rw [hplace, show (fillersText [blank]).length = 1 from rfl]
    rcases placeBehind_le_or L (lead ++ gap) (hkinds.symm.trans hkinds₁) hne with hle | ⟨m, rfl, hpost⟩
    · omega
    · refine .inr ?_
      have hone : (fillersText (gapBefore gap (pre ++ k :: m))).length = 1 := by
        rw [gapBefore, if_neg (by simp)]
        rfl
      have hle : placeBehind L (lead ++ gap) (pre ++ [k]) ≤ placeBehind L (lead ++ gap) (pre ++ k :: m) :=
        placeBehind_le pre k m
      rw [placeBehind_append_singleton] at hle
      rw [hone] at hstart
      split at hstart
      next hlast =>
        -- The last section takes the blank line in front of it, and another one is in between.
        obtain ⟨k₂, m, rfl⟩ : ∃ k₂ m', m = k₂ :: m' := by
          refine List.exists_cons_of_ne_nil fun hm => ?_
          obtain ⟨x, hx, hkept⟩ := hlater
          rw [hpost, hm, hlast, List.nil_append, List.mem_singleton] at hx
          rw [hx, hlost] at hkept
          contradiction
        have hle' : placeBehind L (lead ++ gap) (pre ++ [k] ++ [k₂]) ≤
            placeBehind L (lead ++ gap) (pre ++ [k] ++ k₂ :: m) := placeBehind_le _ _ _
        rw [placeBehind_append_singleton, placeBehind_append_singleton, ← List.append_cons] at hle'
        omega
      · omega
  rw [hplace] at hblank
  exact hblank

/-- The last section leaves nothing if it has lost its objects, nor does what is between it and the one in front. -/
theorem pieces_last (h : Rewrites L lead gap g) (hkinds : kindsIn L.blocks = pre ++ [k]) (hlost : g.loses k = true)
    {as : List Cell}
    (has : cellsOf ((lead ++ gap).map .filler ++ behind pre) = as ++ cellsOf ((gapBefore gap pre).map .filler)) :
    piecesFrom g.editsInOrder (L.head.length + (textOf as).length)
      ((cellsOf ((gapBefore gap pre).map .filler) ++ k.cells).map Cell.text) = [] := by
  have hcells : L.cells = as ++ ((cellsOf ((gapBefore gap pre).map .filler) ++ k.cells) ++ []) := by
    rw [h.spaced.cells_eq hkinds, has, separated]
    simp [cellsOf, Block.cells]
  have hplace : placeBehind L (lead ++ gap) pre =
      L.head.length + (textOf as).length + (fillersText (gapBefore gap pre)).length := by
    rw [placeBehind, has, textOf_append, List.length_append, textOf_fillers, Nat.add_assoc]
  have hdropped := (h.isDropped_eq (hkinds ▸ by simp) (placeBehind L (lead ++ gap) pre)).trans hlost
  refine h.pieces_dropped (h.section_placeBehind hkinds) hdropped hcells (fun c hc => ?_) ?_ ?_
  · rcases List.mem_append.mp hc with hc | hc
    · rw [cellsOf_fillers] at hc
      obtain ⟨f, -, rfl⟩ := List.mem_map.mp hc
      exact .inl rfl
    · exact k.isa?_of_mem hc
  · rw [h.dropSection_of_last hkinds, hplace]
    exact Nat.le_of_eq (Nat.add_sub_cancel ..)
  · rw [h.dropSection_of_last hkinds, hplace, textOf_append, List.length_append, textOf_fillers]
    dsimp only
    omega

/-- What becomes of a section that has lost its objects, and of the blank line behind it. -/
theorem pieces_lost (h : Rewrites L lead gap g) (hkinds : kindsIn L.blocks = pre ++ k :: k' :: post)
    (hlost : g.loses k = true) : piecesFrom g.editsInOrder (placeBehind L (lead ++ gap) pre)
      ((k.cells ++ [Cell.part (.filler blank)]).map Cell.text) = [] := by
  have hcells : L.cells = cellsOf ((lead ++ gap).map .filler ++ behind pre) ++
      ((k.cells ++ [.part (.filler blank)]) ++ cellsOf (separated (k' :: post))) := by
    rw [h.spaced.cells_eq hkinds, cellsOf_separated_cons]
  have hlen : (textOf (k.cells ++ [Cell.part (.filler blank)])).length = (textOf k.cells).length + 1 := by
    rw [textOf_append, List.length_append]
    rfl
  have hdropped := (h.isDropped_eq (hkinds ▸ by simp) (placeBehind L (lead ++ gap) pre)).trans hlost
  refine h.pieces_dropped (h.section_placeBehind hkinds) hdropped hcells (fun c hc => ?_) ?_ ?_
  · rcases List.mem_append.mp hc with hc | hc
    · exact k.isa?_of_mem hc
    · obtain rfl := List.mem_singleton.mp hc
      exact .inl rfl
  · rw [h.dropSection_of_next hkinds]
    exact Nat.le_refl _
  · rw [h.dropSection_of_next hkinds, placeBehind_append_singleton, hlen]
    exact Nat.le_refl _

/-- What becomes of a section that is kept, and what is put in front of it. -/
theorem pieces_section (h : Rewrites L lead gap g) (w : Writer L g) (hkinds : kindsIn L.blocks = pre ++ k :: post)
    (hkept : g.loses k = false) :
    piecesFrom g.editsInOrder (placeBehind L (lead ++ gap) pre) (k.cells.map Cell.text) =
      (w.newBefore pre k).flatMap (fun new => textOf new.cells ++ ['\n']) ++ textOf (w.refill k).cells := by
  obtain ⟨bs, hblocks⟩ := h.spaced.exists_blocks hkinds
  exact h.pieces_kind w hkinds hblocks hkept

/-- What becomes of the sections from one that is kept on, when all that follow have lost their objects. -/
theorem pieces_section_last (h : Rewrites L lead gap g) (w : Writer L g) (hkinds : kindsIn L.blocks = pre ++ k :: post)
    (hkept : g.loses k = false) (hlost : ∀ x ∈ post, g.loses x = true) :
    piecesFrom g.editsInOrder (placeBehind L (lead ++ gap) pre) ((cellsOf (separated (k :: post))).map Cell.text) =
      (w.newBefore pre k).flatMap (fun new => textOf new.cells ++ ['\n']) ++ textOf (w.refill k).cells := by
  cases post with
  | nil =>
    rw [← h.pieces_section w hkinds hkept, separated]
    simp [cellsOf, Block.cells]
  | cons k' post =>
    have hkinds' : kindsIn L.blocks = (pre ++ [k]) ++ k' :: post := hkinds.trans (List.append_cons ..)
    obtain rfl := h.eq_nil_of_lost hkinds' hlost
    have hgap : gapBefore gap (pre ++ [k]) = [blank] := if_neg (by simp)
    have has : cellsOf ((lead ++ gap).map .filler ++ behind (pre ++ [k])) =
        (cellsOf ((lead ++ gap).map .filler ++ behind pre) ++ k.cells) ++
          cellsOf ((gapBefore gap (pre ++ [k])).map .filler) := by
      rw [behind_append, ← List.append_assoc, cellsOf_append, hgap, List.append_assoc]
      rfl
    have hcells : cellsOf (separated [k, k']) =
        k.cells ++ (cellsOf ((gapBefore gap (pre ++ [k])).map .filler) ++ k'.cells) := by
      rw [hgap, cellsOf_separated_cons, separated]
      simp [cellsOf, Block.cells]
    have hnothing := h.pieces_last hkinds' (hlost k' (by simp)) has
    rw [textOf_append, List.length_append, ← Nat.add_assoc] at hnothing
    rw [hcells, List.map_append, piecesFrom_append, h.pieces_section w hkinds hkept]
    exact (congrArg (_ ++ ·) hnothing).trans (List.append_nil _)

/-- What becomes of the sections from one of them on, when one of these is kept. -/
theorem pieces_separated (h : Rewrites L lead gap g) (w : Writer L g) (hkinds : kindsIn L.blocks = pre ++ post)
    (hkept : ∃ k ∈ post, g.loses k = false) :
    piecesFrom g.editsInOrder (placeBehind L (lead ++ gap) pre) ((cellsOf (separated post)).map Cell.text) ++
        w.lastKinds.flatMap (fun new => '\n' :: textOf new.cells) =
      kindsText (weave g.goesBefore w.kept (leftBehind g.goesBefore w.newKinds pre) post) := by
  induction post generalizing pre with
  | nil => simp at hkept
  | cons k post ih =>
    have hkinds' : kindsIn L.blocks = (pre ++ [k]) ++ post := hkinds.trans (List.append_cons ..)
    have hbefore : (w.newKinds.filter fun new => g.goesBefore new k && pre.all fun x => !g.goesBefore new x) =
      w.newBefore pre k := rfl
    rw [weave_leftBehind_cons, hbefore]
    by_cases hlater : ∃ x ∈ post, g.loses x = false
    · have hrest := ih hkinds' hlater
      have hne : weave g.goesBefore w.kept (leftBehind g.goesBefore w.newKinds (pre ++ [k])) post ≠ [] := by
        obtain ⟨x, hx, hkeeps⟩ := hlater
        exact weave_ne_nil ⟨x, hx, by simp [w.kept_of_not_loses hkeeps]⟩
      obtain ⟨k', post, rfl⟩ : ∃ k' post', post = k' :: post' :=
        List.exists_cons_of_ne_nil fun hnil => by simp [hnil] at hlater
      have hlen : ((k.cells ++ [Cell.part (.filler blank)]).map Cell.text).flatten.length =
          (textOf k.cells).length + 1 := by
        show (textOf (k.cells ++ [Cell.part (.filler blank)])).length = _
        rw [textOf_append, List.length_append]
        rfl
      rw [placeBehind_append_singleton, Nat.add_assoc] at hrest
      rw [cellsOf_separated_cons, List.map_append, piecesFrom_append, hlen, List.append_assoc, hrest]
      cases hlost : g.loses k with
      | true =>
        have hnone : w.newBefore pre k = [] :=
          List.filter_eq_nil_iff.mpr fun new _ => by simp [goesBefore_of_loses hlost new]
        rw [h.pieces_lost hkinds hlost, hnone, w.kept_of_loses hlost]
        rfl
      | false =>
        have hsection := h.pieces_section w hkinds hlost
        have hblank := h.pieces_blank hkinds hlost hlater
        rw [List.map_append, piecesFrom_append, w.kept_of_not_loses hlost, List.singleton_append,
          kindsText_append _ (by simp), kindsText_cons _ hne, hsection]
        refine (congrArg (fun cs => _ ++ cs ++ kindsText _) hblank).trans ?_
        simp only [List.append_assoc]
        rfl
    · -- The section is the last one that is kept: new ones that do not go in front of it go to the end.
      have hlost : ∀ x ∈ post, g.loses x = true := fun x hx => by
        rw [← Bool.not_eq_false]
        exact fun hfalse => hlater ⟨x, hx, hfalse⟩
      have hkeeps : g.loses k = false := by
        obtain ⟨x, hx, hfalse⟩ := hkept
        rcases List.mem_cons.mp hx with rfl | hx
        · exact hfalse
        · exact absurd ⟨x, hx, hfalse⟩ hlater
      have hlast : w.lastKinds = leftBehind g.goesBefore w.newKinds (pre ++ [k]) := by
        rw [Writer.lastKinds, hkinds', leftBehind_append_of_never fun x hx new => goesBefore_of_loses (hlost x hx) new]
      have hweave : weave g.goesBefore w.kept (leftBehind g.goesBefore w.newKinds (pre ++ [k])) post = w.lastKinds := by
        rw [hlast, weave_of_gone fun x hx => ⟨w.kept_of_loses (hlost x hx), goesBefore_of_loses (hlost x hx)⟩]
      rw [hweave, h.pieces_section_last w hkinds hkeeps hlost, w.kept_of_not_loses hkeeps,
        List.singleton_append, kindsText_append _ (by simp), kindsText_cons_append, List.append_assoc]

/-! ## The text -/

/-- What is put in behind all sections. -/
theorem putsAt_last_eq (h : Rewrites L lead gap g) (w : Writer L g) : putsAt g.editsInOrder g.lastLineStart =
    w.lastKinds.flatMap fun new => '\n' :: textOf new.cells := by
  rw [h.putsAt_last]
  refine (w.flatMap_newKinds (fun new _ => (h.sectionAfter_isNone new).symm) fun new hnew => ?_).symm
  rw [w.textOf_newKinds hnew]

/-- The lines in front of the sections stay, with the blank line behind them where a section is kept. -/
theorem pieces_lead (h : Rewrites L lead gap g) (hkept : ∃ k ∈ kindsIn L.blocks, g.loses k = false) :
    piecesFrom g.editsInOrder L.head.length ((cellsOf ((lead ++ gap).map .filler)).map Cell.text) =
      fillersText (lead ++ gap) := by
  have hcells : L.cells = [] ++ (cellsOf ((lead ++ gap).map .filler) ++ cellsOf (separated (kindsIn L.blocks))) := by
    rw [List.nil_append, ← cellsOf_append, ← h.spaced.blocks]
    rfl
  refine h.pieces_fillers hcells fun s hs hdropped => .inr ?_
  obtain ⟨pre, k, post, hkinds, hlost, hstart, -⟩ := h.exists_dropped hs hdropped
  rw [textOf_nil, List.length_nil, Nat.add_zero, ← placeBehind_nil]
  cases pre with
  | nil =>
    -- The first section is not the only one.
    have hpost : post ≠ [] := by
      rintro rfl
      obtain ⟨k', hk', hkeeps⟩ := hkept
      rw [hkinds] at hk'
      rw [List.mem_singleton.mp hk', hlost] at hkeeps
      contradiction
    rwa [if_neg hpost] at hstart
  | cons k' pre =>
    have hone : (fillersText (gapBefore gap (k' :: pre))).length = 1 := by
      rw [gapBefore, if_neg (by simp)]
      rfl
    have hle : placeBehind L (lead ++ gap) ([] ++ [k']) ≤ placeBehind L (lead ++ gap) ([] ++ k' :: pre) :=
      placeBehind_le [] k' pre
    rw [placeBehind_append_singleton, List.nil_append] at hle
    rw [hone] at hstart
    split at hstart <;> omega

/-- What becomes of the lines of the table when a section is kept. -/
theorem written_of_kept (h : Rewrites L lead gap g) (w : Writer L g) (hkept : ∃ k ∈ kindsIn L.blocks, g.loses k = false) :
    written g.editsInOrder L.head.length (L.cells.map Cell.text) =
      fillersText (lead ++ gap) ++ kindsText w.kinds := by
  have hcells : L.cells = cellsOf ((lead ++ gap).map .filler) ++ cellsOf (separated (kindsIn L.blocks)) := by
    rw [← cellsOf_append, ← h.spaced.blocks]
    rfl
  have hplace : L.head.length + ((cellsOf ((lead ++ gap).map .filler)).map Cell.text).flatten.length =
      placeBehind L (lead ++ gap) [] := by
    rw [placeBehind_nil, ← textOf_fillers]
    rfl
  have hlast : L.head.length + (L.cells.map Cell.text).flatten.length = g.lastLineStart := h.laid.lastLineStart_eq.symm
  have hsections := h.pieces_separated w (List.nil_append _).symm hkept
  rw [leftBehind_nil] at hsections
  rw [written_eq, hlast, h.putsAt_last_eq w]
  rw [hcells, List.map_append, piecesFrom_append, hplace, h.pieces_lead hkept, List.append_assoc, hsections]
  rfl

/-- What becomes of the lines of the table when no section is kept. -/
theorem written_of_lost (h : Rewrites L lead gap g) (w : Writer L g) (hlost : ∀ k ∈ kindsIn L.blocks, g.loses k = true) :
    w.kinds = w.newKinds ∧ written g.editsInOrder L.head.length (L.cells.map Cell.text) =
      fillersText lead ++ w.newKinds.flatMap fun new => '\n' :: textOf new.cells := by
  have hnever : ∀ k ∈ kindsIn L.blocks, ∀ new, g.goesBefore new k = false := fun k hk => goesBefore_of_loses (hlost k hk)
  have hlastKinds : w.lastKinds = w.newKinds := by
    have hnone : leftBehind g.goesBefore w.newKinds ([] ++ kindsIn L.blocks) = _ := leftBehind_append_of_never hnever
    rwa [leftBehind_nil] at hnone
  refine ⟨weave_of_gone fun k hk => ⟨w.kept_of_loses (hlost k hk), hnever k hk⟩, ?_⟩
  have hlast : L.head.length + (L.cells.map Cell.text).flatten.length = g.lastLineStart := h.laid.lastLineStart_eq.symm
  rw [written_eq, hlast, h.putsAt_last_eq w, hlastKinds]
  refine congrArg (· ++ _) ?_
  have hstays {ds : List Cell} (hcells : L.cells = [] ++ (cellsOf (lead.map .filler) ++ ds))
      (hfree : ∀ s ∈ g.sections, g.isDropped s = true → L.head.length + (fillersText lead).length ≤ (g.dropSection s).start) :
      piecesFrom g.editsInOrder L.head.length ((cellsOf (lead.map .filler)).map Cell.text) = fillersText lead :=
    h.pieces_fillers hcells fun s hs hdropped => .inr (hfree s hs hdropped)
  cases hkinds : kindsIn L.blocks with
  | nil =>
    have hgap : gap = [] := by
      rcases h.spaced.gap with ⟨-, hne⟩ | ⟨hgap, -⟩
      · exact absurd hkinds hne
      · exact hgap
    have hcells : L.cells = cellsOf (lead.map .filler) := by
      rw [Layout.cells, h.spaced.blocks, hkinds, hgap, List.append_nil]
      exact congrArg cellsOf (List.append_nil _)
    have hwhole : L.cells = [] ++ (cellsOf (lead.map .filler) ++ []) := by rw [hcells, List.append_nil, List.nil_append]
    have hlead := hstays hwhole fun s hs hdropped => by
      obtain ⟨pre, k, post, hkinds', -⟩ := h.spaced.exists_section (h.sections ▸ hs)
      rw [hkinds] at hkinds'
      simp at hkinds'
    rw [hcells, hlead]
  | cons k post =>
    obtain rfl : post = [] := h.eq_nil_of_lost (hkinds.trans (List.nil_append _).symm) fun x hx => hlost x (hkinds ▸ hx)
    have hcells : L.cells = cellsOf (lead.map .filler) ++ (cellsOf (gap.map .filler) ++ k.cells) := by
      rw [Layout.cells, h.spaced.blocks, hkinds, List.map_append, List.append_assoc, cellsOf_append, cellsOf_append,
        separated]
      simp [cellsOf, Block.cells]
    have hfront : cellsOf ((lead ++ gap).map .filler ++ behind []) =
        cellsOf (lead.map .filler) ++ cellsOf ((gapBefore gap []).map .filler) := by
      rw [show behind [] = [] from rfl, List.append_nil, List.map_append, cellsOf_append]
      rfl
    have hplace : L.head.length + ((cellsOf (lead.map .filler)).map Cell.text).flatten.length =
        L.head.length + (textOf (cellsOf (lead.map .filler))).length := rfl
    have hnothing := h.pieces_last (hkinds.trans (List.nil_append _).symm) (hlost k (by simp [hkinds])) hfront
    have hlead := hstays hcells fun s hs hdropped => by
      obtain ⟨pre, k', post, hkinds', -, hstart, -⟩ := h.exists_dropped hs hdropped
      rw [hkinds] at hkinds'
      obtain ⟨rfl, rfl⟩ : pre = [] ∧ post = [] := by
        rcases List.append_eq_singleton_iff.mp hkinds'.symm with ⟨hpre, hpost⟩ | ⟨-, hnil⟩
        · exact ⟨hpre, (List.cons.inj hpost).2⟩
        · contradiction
      have hlen : (fillersText (lead ++ gap)).length = (fillersText lead).length + (fillersText gap).length := by
        rw [fillersText, List.flatMap_append, List.length_append]
        rfl
      rw [if_pos rfl, placeBehind_nil, hlen] at hstart
      have hgap : gapBefore gap [] = gap := rfl
      rw [hgap] at hstart
      omega
    rw [hcells, List.map_append, piecesFrom_append, hplace, hlead]
    exact (congrArg (_ ++ ·) hnothing).trans (List.append_nil _)

/-- What becomes of the lines of the table: those in front of the sections stay, and what has become of these stands with
a blank line between each two.  The blank line in front of the first one stays where a section is kept. -/
theorem exists_written (h : Rewrites L lead gap g) (w : Writer L g) : ∃ gap' : List Filler,
    ((gap' = [blank] ∧ w.kinds ≠ []) ∨ (gap' = [] ∧ (w.kinds ≠ [] → lead.getLast? ≠ some blank))) ∧
      written g.editsInOrder L.head.length (L.cells.map Cell.text) =
        fillersText (lead ++ gap') ++ kindsText w.kinds ∧
      ((∃ k ∈ kindsIn L.blocks, g.loses k = false) → gap' = gap) := by
  by_cases hkept : ∃ k ∈ kindsIn L.blocks, g.loses k = false
  · refine ⟨gap, ?_, h.written_of_kept w hkept, fun _ => rfl⟩
    obtain ⟨k, hk, hkeeps⟩ := hkept
    have hne : w.kinds ≠ [] := weave_ne_nil ⟨k, hk, by simp [w.kept_of_not_loses hkeeps]⟩
    exact h.spaced.gap.imp (fun hgap => ⟨hgap.1, hne⟩) fun hgap => ⟨hgap.1, fun _ => hgap.2 (List.ne_nil_of_mem hk)⟩
  · obtain ⟨hkinds, htext⟩ := h.written_of_lost w fun k hk => by
      rw [← Bool.not_eq_false]
      exact fun hkeeps => hkept ⟨k, hk, hkeeps⟩
    rw [hkinds, htext]
    cases hnew : w.newKinds with
    | nil => exact ⟨[], .inr ⟨rfl, by simp⟩, by rw [List.append_nil]; rfl, fun h => absurd h hkept⟩
    | cons k ks =>
      refine ⟨[blank], .inl ⟨rfl, by simp⟩, ?_, fun h => absurd h hkept⟩
      rw [fillersText, fillersText, List.flatMap_append, kindsText_cons_append, List.append_assoc]
      rfl

end Rewrites

end Xcode
end ModuleLink
