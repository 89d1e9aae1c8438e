import Mathlib
import ModuleLink.Path
import ModuleLink.Proofs.Outcome

/-!
Paths by their names.  The way from a folder to a path leads there, and the text of a path names it.
-/

namespace ModuleLink

namespace Text

/-! ## Parts of a text -/

section

variable {sep : Char → Bool} {s x part : List Char} {rest : List (List Char)}

theorem splitBy_append (hs : ∀ c ∈ s, sep c = false) (hx : splitBy sep x = part :: rest) :
    splitBy sep (s ++ x) = (s ++ part) :: rest := by
  induction s with
  | nil => exact hx
  | cons c s ih =>
    rw [List.forall_mem_cons] at hs
    rw [List.cons_append, splitBy, hs.1, ih hs.2]
    rfl

/-- Texts with a separator in front of each come apart. -/
theorem splitBy_flatMap {d : Char} {ss : List (List Char)} (h : ∀ s ∈ ss, d ∉ s) :
    splitBy (· == d) (ss.flatMap (d :: ·)) = [] :: ss := by
  induction ss with
  | nil => rfl
  | cons s ss ih =>
    rw [List.forall_mem_cons] at h
    have hs : ∀ c ∈ s, (c == d) = false := fun c hc => beq_false_of_ne fun e => h.1 (e ▸ hc)
    rw [List.flatMap_cons, List.cons_append, splitBy, beq_self_eq_true, if_pos rfl, splitBy_append hs (ih h.2),
      List.append_nil]

end

end Text

deriving instance ReflBEq, LawfulBEq for Path

namespace Path

/-! ## Names -/

/-- A name that an entry of a folder can have. -/
structure IsName (s : String) : Prop where
  nonempty : s ≠ ""
  noStay : s ≠ "."
  noParent : s ≠ ".."
  slashFree : '/' ∉ s.toList

/-- An absolute path that goes from name to name. -/
structure IsNormal (p : Path) : Prop where
  isAbsolute : p.isAbsolute = true
  names : ∀ s ∈ p.parts, IsName s

instance (s : String) : Decidable (IsName s) :=
  decidable_of_iff (s ≠ "" ∧ s ≠ "." ∧ s ≠ ".." ∧ '/' ∉ s.toList)
    ⟨fun ⟨h₁, h₂, h₃, h₄⟩ => ⟨h₁, h₂, h₃, h₄⟩, fun ⟨h₁, h₂, h₃, h₄⟩ => ⟨h₁, h₂, h₃, h₄⟩⟩

instance (p : Path) : Decidable p.IsNormal :=
  decidable_of_iff (p.isAbsolute = true ∧ ∀ s ∈ p.parts, IsName s) ⟨fun ⟨h₁, h₂⟩ => ⟨h₁, h₂⟩, fun ⟨h₁, h₂⟩ => ⟨h₁, h₂⟩⟩

theorem IsNormal.parent {p : Path} (h : p.IsNormal) : p.parent.IsNormal :=
  ⟨h.isAbsolute, fun s hs => h.names s (List.dropLast_subset _ hs)⟩

/-- An absolute path is the same as another one, or leads to a folder above it.  All absolute paths start from one root,
whether it is written with one slash or with two. -/
def IsAbove (p q : Path) : Prop := p.parts <+: q.parts

/-- A part of the text of a path: a name, or a step to the parent. -/
structure IsStep (s : String) : Prop where
  nonempty : s ≠ ""
  noStay : s ≠ "."
  slashFree : '/' ∉ s.toList

theorem IsName.isStep {s : String} (h : IsName s) : IsStep s := ⟨h.nonempty, h.noStay, h.slashFree⟩

theorem isStep_parent : IsStep ".." := ⟨by decide, by decide, by decide⟩

/-! ## The text of a path -/

section

variable {parts : List String} {s : String}

/-- Steps with a slash in front of each. -/
def slashed (parts : List String) : List Char := (parts.map String.toList).flatMap ('/' :: ·)

@[simp] theorem slashed_nil : slashed [] = [] := rfl

@[simp] theorem slashed_cons (s : String) (parts : List String) :
    slashed (s :: parts) = '/' :: (s.toList ++ slashed parts) := rfl

theorem slashed_append (parts rest : List String) : slashed (parts ++ rest) = slashed parts ++ slashed rest := by
  rw [slashed, List.map_append, List.flatMap_append]
  rfl

theorem slashed_eq (hne : parts ≠ []) : slashed parts = '/' :: (String.intercalate "/" parts).toList := by
  rw [String.toList_intercalate]
  induction parts with
  | nil => contradiction
  | cons s parts ih =>
    cases parts with
    | nil => simp
    | cons t parts =>
      rw [List.map_cons, List.map_cons, List.intercalate_cons_cons, slashed_cons, ih (by simp)]
      simp

theorem components_slashed (h : ∀ s ∈ parts, IsStep s) : components (slashed parts) = parts := by
  have hslash : ∀ s ∈ parts.map String.toList, '/' ∉ s := by
    intro s hs
    obtain ⟨t, ht, rfl⟩ := List.mem_map.mp hs
    exact (h t ht).slashFree
  have hback : (parts.map String.toList).map String.ofList = parts := by
    rw [List.map_map]
    exact List.map_id'' (fun s => String.ofList_toList) parts
  rw [components, slashed, Text.splitBy_flatMap hslash, List.map_cons, hback, List.filter_cons_of_neg (by decide),
    List.filter_eq_self]
  intro s hs
  rw [bne_iff_ne.mpr (h s hs).nonempty, bne_iff_ne.mpr (h s hs).noStay]
  rfl

theorem components_cons_slash (cs : List Char) : components ('/' :: cs) = components cs := by
  rw [components, Text.splitBy, components]
  simp

theorem rootOf_of_head {cs : List Char} (h : cs.head? ≠ some '/') : rootOf cs = "" := by
  rw [rootOf.eq_def]
  split
  · exact absurd rfl h
  · exact absurd rfl h
  · exact absurd rfl h
  · rfl

/-- Reading the text of a relative path gives the path. -/
theorem ofString_toString (h : ∀ s ∈ parts, IsStep s) : ofString (toString ⟨"", parts⟩) = ⟨"", parts⟩ := by
  cases parts with
  | nil => decide
  | cons s rest =>
    have htext : (toString ⟨"", s :: rest⟩).toList = s.toList ++ slashed rest := by
      have hslashed := slashed_eq (List.cons_ne_nil s rest)
      rw [slashed_cons] at hslashed
      rw [(List.cons.inj hslashed).2]
      simp [toString]
    have hcomponents := components_slashed h
    rw [slashed_cons, components_cons_slash] at hcomponents
    have hhead : (s.toList ++ slashed rest).head? ≠ some '/' := by
      have hs := h s List.mem_cons_self
      have hne : s.toList ≠ [] := fun e => hs.nonempty (String.toList_inj.mp e)
      rw [List.head?_append_of_ne_nil _ hne]
      exact fun e => hs.slashFree (List.mem_of_head? e)
    rw [ofString, htext, hcomponents, rootOf_of_head hhead]

end

/-! ## Normal paths -/

section

variable {parts done front rest : List String} {p start : Path}

theorem collapse_names (h : ∀ s ∈ parts, s ≠ "..") (done rest : List String) :
    collapse done (parts ++ rest) = collapse (parts.reverse ++ done) rest := by
  induction parts generalizing done with
  | nil => rfl
  | cons s parts ih =>
    rw [List.forall_mem_cons] at h
    rw [List.cons_append, collapse, if_neg h.1, ih h.2, List.reverse_cons, List.append_assoc]
    rfl

/-- Steps to the parent take back what is done. -/
theorem collapse_parents (steps : List String) (done rest : List String) :
    collapse done (steps.map (fun _ => "..") ++ rest) = collapse (done.drop steps.length) rest := by
  induction steps generalizing done with
  | nil => rfl
  | cons s steps ih =>
    rw [List.map_cons, List.cons_append, collapse, if_pos rfl, ih, List.drop_drop, List.length_cons, Nat.add_comm]

theorem IsNormal.noParent (h : p.IsNormal) : ∀ s ∈ p.parts, s ≠ ".." := fun s hs => (h.names s hs).noParent

theorem IsNormal.normal_eq (h : p.IsNormal) (here : Path) : normal here p = p := by
  have hparts := collapse_names h.noParent [] []
  rw [List.append_nil, collapse, List.append_nil, List.reverse_reverse] at hparts
  rw [normal, join, if_pos h.isAbsolute, hparts]

theorem exists_diverge (as bs : List String) :
    ∃ front, as = front ++ (diverge as bs).1 ∧ bs = front ++ (diverge as bs).2 := by
  induction as generalizing bs with
  | nil => exact ⟨[], by simp [diverge]⟩
  | cons a as ih =>
    cases bs with
    | nil => exact ⟨[], by simp [diverge]⟩
    | cons b bs =>
      rw [diverge]
      split
      next heq =>
        obtain ⟨front, has, hbs⟩ := ih bs
        subst heq
        exact ⟨a :: front, by rw [List.cons_append, ← has], by rw [List.cons_append, ← hbs]⟩
      · exact ⟨[], rfl, rfl⟩

/-- The way to a path goes up from the folder to where the two part, and from there by the names of the path. -/
theorem exists_relative (hp : p.IsNormal) (hstart : start.IsNormal) (here : Path) : ∃ front up down,
    p.parts = front ++ down ∧ start.parts = front ++ up ∧
      relative here p start = ⟨"", up.map (fun _ => "..") ++ down⟩ := by
  obtain ⟨front, hdown, hup⟩ := exists_diverge p.parts start.parts
  refine ⟨front, _, _, hdown, hup, ?_⟩
  rw [relative, hp.normal_eq, hstart.normal_eq]

theorem isStep_relative (hp : p.IsNormal) (hstart : start.IsNormal) (here : Path) :
    ∀ s ∈ (relative here p start).parts, IsStep s := by
  obtain ⟨front, up, down, hdown, -, hrelative⟩ := exists_relative hp hstart here
  rw [hrelative]
  intro s hs
  rcases List.mem_append.mp hs with hs | hs
  · obtain ⟨_, -, rfl⟩ := List.mem_map.mp hs
    exact isStep_parent
  · exact (hp.names s (hdown ▸ List.mem_append_right _ hs)).isStep

/-- The way from a folder to a path leads from the folder to the place of the path. -/
theorem normal_div_relative (hp : p.IsNormal) (hstart : start.IsNormal) (here : Path) :
    normal here (start / (relative here p start).toString) = ⟨start.root, p.parts⟩ := by
  have hsteps := isStep_relative hp hstart here
  obtain ⟨front, up, down, hdown, hup, hrelative⟩ := exists_relative hp hstart here
  rw [hrelative] at hsteps ⊢
  have hjoin : start / toString ⟨"", up.map (fun _ => "..") ++ down⟩ =
      ⟨start.root, start.parts ++ (up.map (fun _ => "..") ++ down)⟩ := by
    show start.join (ofString _) = _
    rw [ofString_toString hsteps]
    rfl
  have habsolute : (⟨start.root, start.parts ++ (up.map (fun _ => "..") ++ down)⟩ : Path).isAbsolute = true :=
    hstart.isAbsolute
  have hnames : ∀ s ∈ front ++ down, s ≠ ".." := hdown ▸ hp.noParent
  have hcollapse : collapse [] (start.parts ++ (up.map (fun _ => "..") ++ down)) = front ++ down := by
    rw [collapse_names hstart.noParent, collapse_parents, hup, List.append_nil, List.reverse_append,
      List.drop_left' List.length_reverse, ← List.append_nil down, collapse_names fun s hs => hnames s (by simp [hs]),
      collapse]
    simp
  rw [hjoin, normal, join, if_pos habsolute, hcollapse, hdown]

end

/-! ## Common fronts -/

section

variable {l as bs init : List String} {ps : List Path}

theorem prefix_commonFront_iff : l <+: commonFront as bs ↔ l <+: as ∧ l <+: bs := by
  induction as generalizing l bs with
  | nil =>
    have hnil : commonFront [] bs = [] := by cases bs <;> rfl
    rw [hnil, List.prefix_nil]
    exact ⟨fun h => ⟨h, h ▸ List.nil_prefix⟩, fun h => h.1⟩
  | cons a as ih =>
    cases bs with
    | nil =>
      rw [commonFront.eq_def, List.prefix_nil]
      exact ⟨fun h => ⟨h ▸ List.nil_prefix, h⟩, fun h => h.2⟩
    | cons b bs =>
      cases l with
      | nil => simp
      | cons x l =>
        rw [commonFront]
        by_cases hab : a = b
        · subst hab
          rw [if_pos rfl, List.cons_prefix_cons, List.cons_prefix_cons, List.cons_prefix_cons, ih]
          tauto
        · rw [if_neg hab, List.cons_prefix_cons, List.cons_prefix_cons]
          constructor
          · intro h
            simp at h
          · rintro ⟨⟨rfl, -⟩, rfl, -⟩
            exact absurd rfl hab

theorem prefix_foldl_commonFront_iff :
    l <+: ps.foldl (fun front q => commonFront front q.parts) init ↔ l <+: init ∧ ∀ p ∈ ps, l <+: p.parts := by
  induction ps generalizing init with
  | nil => simp
  | cons p ps ih => rw [List.foldl_cons, ih, prefix_commonFront_iff, List.forall_mem_cons, and_assoc]

/-- The names of the longest path above some paths start all of them, and so does whatever starts these names. -/
theorem exists_common (hne : ps ≠ []) (habsolute : ∀ p ∈ ps, p.isAbsolute = true) :
    ∃ names, common ps = .ok ⟨"/", names⟩ ∧ ∀ l, l <+: names ↔ ∀ p ∈ ps, l <+: p.parts := by
  cases ps with
  | nil => contradiction
  | cons p ps =>
    rw [List.forall_mem_cons] at habsolute
    have hmixed : (ps.any fun q => q.isAbsolute != p.isAbsolute) = false := by
      rw [List.any_eq_false]
      intro q hq
      rw [habsolute.1, habsolute.2 q hq]
      decide
    refine ⟨ps.foldl (fun front q => commonFront front q.parts) p.parts, ?_, fun l => ?_⟩
    · rw [common, hmixed, habsolute.1]
      rfl
    · rw [prefix_foldl_commonFront_iff, List.forall_mem_cons]

end

end Path
end ModuleLink
