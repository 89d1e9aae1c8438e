import ModuleLink.Proofs.Android.Selection

/-!
The two kinds of blocks in the main file.  Each block, and each of the two texts that the blocks stand behind, ends in a
character that nothing of the kind holds anywhere else.  So none of them goes over an end of another one, and the places
of one can be counted without regard to the others.
-/

namespace ModuleLink
namespace Android

open Patch Text

/-! ## Texts without placeholders -/

theorem fillChars_of_notMem (params : Answers) (stem : String) {cs : List Char} (h : '$' ∉ cs) :
    fillChars params stem cs = cs := by
  induction cs with
  | nil => rw [fillChars]
  | cons c cs ih =>
    rw [List.mem_cons, not_or] at h
    have hnone : placeholder? (c :: cs) = none := by
      unfold placeholder?
      split
      next heq => exact absurd (List.cons.inj heq).1.symm h.1
      · rfl
    rw [fillChars_of_none hnone, ih h.2]

namespace Part

/-- The text in the main file that the blocks of a part stand behind. -/
def needle : Part → String
  | package => "new MainReactPackage()"
  | imports => "import com.facebook.react.ReactApplication;"
  | _ => ""

/-- The parts that go into the main file. -/
def IsMain (part : Part) : Prop := part = package ∨ part = imports

end Part

/-- Nothing but the last character of the text can be the end of a block in the main file. -/
structure IsSealed (p : List Char) : Prop where
  paren : ')' ∉ p.dropLast
  semicolon : ';' ∉ p.dropLast
  last : p.getLast? = some ')' ∨ p.getLast? = some ';'

theorem IsSealed.ne_nil {p : List Char} (h : IsSealed p) : p ≠ [] := by
  rintro rfl
  rcases h.last with h | h <;> contradiction

theorem IsSealed.notAcross {p a : List Char} (hp : IsSealed p) (ha : IsSealed a) (b : List Char) : NotAcross p (b ++ a) := by
  have hlast : (b ++ a).getLast? = a.getLast? := List.getLast?_append_of_ne_nil b ha.ne_nil
  rcases ha.last with h | h
  · exact notAcross_of_getLast hp.paren (hlast.trans h)
  · exact notAcross_of_getLast hp.semicolon (hlast.trans h)

theorem isSealed_needle {part : Part} (h : part.IsMain) : IsSealed part.needle.toList := by
  rcases h with rfl | rfl
  · exact ⟨by decide +kernel, by decide +kernel, .inl (by decide +kernel)⟩
  · exact ⟨by decide +kernel, by decide +kernel, .inr (by decide +kernel)⟩

namespace Selection

variable {ι : Type} {s : Selection ι} {i k : ι} {part other : Part}

/-! ## The blocks -/

def newFront : List Char := "\n            new".toList

def importWord : List Char := "\nimport".toList

variable (s i) in
def className : List Char := (s.get i).className.toList

variable (s i) in
def qualifiedName : List Char := (s.get i).qualifiedName.toList

/-- A package class that is created without arguments calls up no params. -/
theorem fill_instanceText (params : Answers) (stem : String) :
    fill (s.get i).instanceText params stem = (s.get i).instanceText := by
  have hnew : "new ".toList = ['n', 'e', 'w', ' '] := by decide
  have hend : "()".toList = ['(', ')'] := by decide
  have hplain : '$' ∉ (s.get i).instanceText.toList := by
    have hclass : '$' ∉ (s.get i).className.toList := fun h => absurd ((s.plain i).className _ h) (by decide)
    rw [Dependency.instanceText, String.toList_append, String.toList_append, hnew, hend]
    simp [hclass]
  rw [fill, fillChars_of_notMem _ _ hplain, String.ofList_toList]

theorem block_package : s.block .package i = ',' :: (newFront ++ ' ' :: (s.className i ++ ['(', ')'])) := by
  have hnew : "new ".toList = ['n', 'e', 'w', ' '] := by decide
  have hend : "()".toList = ['(', ')'] := by decide
  have hfront : ",\n            ".toList ++ ['n', 'e', 'w', ' '] = ',' :: (newFront ++ [' ']) := by decide +kernel
  show (",\n            " ++ fill (s.get i).instanceText (s.get i).params (s.stem i)).toList = _
  rw [fill_instanceText, String.toList_append, Dependency.instanceText, String.toList_append, String.toList_append, hnew, hend,
    className, ← List.append_assoc, ← List.append_assoc, hfront]
  simp only [List.append_assoc, List.cons_append, List.nil_append]

theorem block_imports : s.block .imports i = importWord ++ ' ' :: (s.qualifiedName i ++ [';']) := by
  have hfront : "\n".toList ++ "import ".toList = importWord ++ [' '] := by decide
  have hend : ";".toList = [';'] := by decide
  show ("\n" ++ (s.get i).importText).toList = _
  rw [String.toList_append, Dependency.importText, String.toList_append, String.toList_append, hend, qualifiedName,
    ← List.append_assoc, ← List.append_assoc, hfront]
  simp only [List.append_assoc, List.cons_append, List.nil_append]

theorem notMem_className {c : Char} (hc : isWord c = false) : c ∉ s.className i := by
  intro h
  rw [(s.plain i).className c h] at hc
  contradiction

theorem qualifiedName_eq : s.qualifiedName i = (s.get i).packagePath.toList ++ '.' :: s.className i := by
  have hdot : ".".toList = ['.'] := by decide
  rw [qualifiedName, Dependency.qualifiedName, String.toList_append, String.toList_append, hdot, className,
    List.append_assoc, List.singleton_append]

theorem notMem_qualifiedName {c : Char} (hc : isWord c = false) (hdot : c ≠ '.') : c ∉ s.qualifiedName i := by
  rw [qualifiedName_eq, List.mem_append, List.mem_cons, not_or, not_or]
  refine ⟨fun h => ?_, hdot, notMem_className hc⟩
  rcases (s.plain i).packagePath c h with hword | rfl
  · rw [hword] at hc
    contradiction
  · exact hdot rfl

theorem eq_of_className_eq (h : s.className i = s.className k) : i = k := s.class_injective (String.toList_inj.mp h)

theorem eq_of_qualifiedName_eq (h : s.qualifiedName i = s.qualifiedName k) : i = k := by
  have hdot (i : ι) : '.' ∉ s.className i := notMem_className (by decide)
  rw [qualifiedName_eq, qualifiedName_eq] at h
  exact eq_of_className_eq (append_cons_inj_right h (hdot i) (hdot k)).2

theorem isSealed_block (h : part.IsMain) (i : ι) : IsSealed (s.block part i) := by
  have hnew : ')' ∉ newFront ∧ ';' ∉ newFront := by decide
  have himport : ')' ∉ importWord ∧ ';' ∉ importWord := by decide
  rcases h with rfl | rfl
  · have hline : s.block .package i = (',' :: (newFront ++ ' ' :: (s.className i ++ ['(']))) ++ [')'] := by
      rw [block_package]
      simp
    rw [hline]
    refine ⟨?_, ?_, .inl List.getLast?_concat⟩ <;> rw [List.dropLast_concat] <;>
      simp only [List.mem_append, List.mem_cons, List.not_mem_nil, or_false, not_or]
    · exact ⟨by decide, hnew.1, by decide, notMem_className (by decide), by decide⟩
    · exact ⟨by decide, hnew.2, by decide, notMem_className (by decide), by decide⟩
  · have hline : s.block .imports i = (importWord ++ ' ' :: s.qualifiedName i) ++ [';'] := by
      rw [block_imports]
      simp
    rw [hline]
    refine ⟨?_, ?_, .inr List.getLast?_concat⟩ <;> rw [List.dropLast_concat] <;>
      simp only [List.mem_append, List.mem_cons, not_or]
    · exact ⟨himport.1, by decide, notMem_qualifiedName (by decide) (by decide)⟩
    · exact ⟨himport.2, by decide, notMem_qualifiedName (by decide) (by decide)⟩

/-! ## Blocks in blocks -/

theorem hits_block_self [DecidableEq ι] (h : part.IsMain) :
    hits (s.block part k) (s.block part i) = if i = k then 1 else 0 := by
  rcases h with rfl | rfl
  · have hnew : ',' ∉ newFront := by decide
    have hframe (i : ι) : s.block .package i = [] ++ ',' :: ((newFront ++ [' ']) ++ (s.className i ++ '(' :: [')'])) := by
      rw [block_package]
      simp
    have hcomma : ',' ∉ (newFront ++ [' ']) ++ (s.className i ++ '(' :: [')']) := by
      simp only [List.mem_append, List.mem_cons, List.not_mem_nil, or_false, not_or]
      exact ⟨⟨hnew, by decide⟩, notMem_className (by decide), by decide, by decide⟩
    have hparen (i : ι) : '(' ∉ s.className i := notMem_className (by decide)
    rw [hframe, hframe, hits_frame (by simp) hcomma (hparen i) (hparen k)]
    by_cases hik : i = k
    · rw [if_pos hik, if_pos (by rw [hik])]
    · rw [if_neg hik, if_neg fun h => hik (eq_of_className_eq h)]
  · have hword : importWord = '\n' :: "import".toList := by decide
    have hletters : '\n' ∉ "import".toList := by decide
    have hframe (i : ι) : s.block .imports i =
        [] ++ '\n' :: (("import".toList ++ [' ']) ++ (s.qualifiedName i ++ ';' :: [])) := by
      rw [block_imports, hword, List.append_assoc, List.cons_append]
      rfl
    have hline : '\n' ∉ ("import".toList ++ [' ']) ++ (s.qualifiedName i ++ ';' :: []) := by
      rw [List.mem_append, List.mem_append, List.mem_append, not_or, not_or, not_or]
      exact ⟨⟨hletters, by decide⟩, notMem_qualifiedName (by decide) (by decide), by decide⟩
    have hsemicolon (i : ι) : ';' ∉ s.qualifiedName i := notMem_qualifiedName (by decide) (by decide)
    rw [hframe, hframe, hits_frame (by simp) hline (hsemicolon i) (hsemicolon k)]
    by_cases hik : i = k
    · rw [if_pos hik, if_pos (by rw [hik])]
    · rw [if_neg hik, if_neg fun h => hik (eq_of_qualifiedName_eq h)]

theorem semicolon_notMem_package : ';' ∉ s.block .package i := by
  have hnew : ';' ∉ newFront := by decide
  rw [block_package]
  simp only [List.mem_append, List.mem_cons, List.not_mem_nil, or_false, not_or]
  exact ⟨by decide, hnew, by decide, notMem_className (by decide), by decide, by decide⟩

theorem notMem_imports {c : Char} (hc : c ∈ [',', '(']) : c ∉ s.block .imports i := by
  have hword : ',' ∉ importWord ∧ '(' ∉ importWord := by decide
  rw [block_imports]
  simp only [List.mem_append, List.mem_cons, List.not_mem_nil, or_false, not_or]
  simp only [List.mem_cons, List.not_mem_nil, or_false] at hc
  rcases hc with rfl | rfl
  · exact ⟨hword.1, by decide, notMem_qualifiedName (by decide) (by decide), by decide⟩
  · exact ⟨hword.2, by decide, notMem_qualifiedName (by decide) (by decide), by decide⟩

theorem hits_block_other (h : part.IsMain) (hother : other.IsMain) (hne : part ≠ other) :
    hits (s.block part k) (s.block other i) = 0 := by
  rcases h with rfl | rfl <;> rcases hother with rfl | rfl
  · exact absurd rfl hne
  · refine hits_eq_zero_of_notMem (c := ',') ?_ (notMem_imports (by simp))
    rw [block_package]
    simp
  · refine hits_eq_zero_of_notMem (c := ';') ?_ semicolon_notMem_package
    rw [block_imports]
    simp
  · exact absurd rfl hne

/-! ## What the blocks stand behind -/

def newWord : List Char := "new".toList

def mainClass : List Char := "MainReactPackage".toList

def importLetters : List Char := "import".toList

def applicationName : List Char := "com.facebook.react.ReactApplication".toList

theorem needle_package : Part.package.needle.toList = newWord ++ ' ' :: (mainClass ++ '(' :: [')']) := by
  decide +kernel

theorem needle_imports : Part.imports.needle.toList = importLetters ++ ' ' :: (applicationName ++ ';' :: []) := by
  decide +kernel

/-- A package class is not the one of the framework itself. -/
theorem needle_package_ne (x y : List Char) : s.block .package i ≠ x ++ (Part.package.needle.toList ++ y) := by
  intro h
  have hclass : '(' ∉ ',' :: (newFront ++ ' ' :: s.className i) := by
    have hnew : '(' ∉ newFront := by decide
    simp only [List.mem_append, List.mem_cons, not_or]
    exact ⟨by decide, hnew, by decide, notMem_className (by decide)⟩
  have hspace : ' ' ∉ mainClass := by decide
  have hsplit : (',' :: (newFront ++ ' ' :: s.className i)) ++ '(' :: [')'] =
      (x ++ (newWord ++ ' ' :: mainClass)) ++ '(' :: (')' :: y) := by
    rw [block_package, needle_package] at h
    simpa only [List.append_assoc, List.cons_append, List.nil_append] using h
  obtain ⟨hline, -, -⟩ := (List.append_cons_inj_of_notMem hclass (by simp)).mp hsplit
  rw [← List.append_assoc, ← List.cons_append] at hline
  have hsame := (append_cons_inj_right hline (notMem_className (by decide)) hspace).2
  exact (s.plain i).notMain (String.toList_inj.mp hsame)

/-- The import of a package class is not the one that the imports stand behind. -/
theorem needle_imports_ne (x y : List Char) : s.block .imports i ≠ x ++ (Part.imports.needle.toList ++ y) := by
  intro h
  have hname : ';' ∉ importWord ++ ' ' :: s.qualifiedName i := by
    have hword : ';' ∉ importWord := by decide
    simp only [List.mem_append, List.mem_cons, not_or]
    exact ⟨hword, by decide, notMem_qualifiedName (by decide) (by decide)⟩
  have hspace : ' ' ∉ applicationName := by decide
  have hsplit : (importWord ++ ' ' :: s.qualifiedName i) ++ ';' :: [] =
      (x ++ (importLetters ++ ' ' :: applicationName)) ++ ';' :: y := by
    rw [block_imports, needle_imports] at h
    simpa only [List.append_assoc, List.cons_append, List.nil_append] using h
  obtain ⟨hline, -, -⟩ := (List.append_cons_inj_of_notMem hname (by simp)).mp hsplit
  rw [← List.append_assoc] at hline
  have hsame := (append_cons_inj_right hline (notMem_qualifiedName (by decide) (by decide)) hspace).2
  exact (s.plain i).notApplication (String.toList_inj.mp hsame)

/-- The texts that the blocks stand behind do not stand in a block. -/
theorem hits_needle (h : part.IsMain) (hother : other.IsMain) : hits part.needle.toList (s.block other i) = 0 := by
  rcases h with rfl | rfl <;> rcases hother with rfl | rfl
  · rw [hits_eq_zero_iff (isSealed_needle (.inl rfl)).ne_nil]
    rintro ⟨x, y, hxy⟩
    exact needle_package_ne x y (by rw [← hxy, List.append_assoc])
  · refine hits_eq_zero_of_notMem (c := '(') ?_ (notMem_imports (by simp))
    rw [needle_package]
    simp
  · refine hits_eq_zero_of_notMem (c := ';') ?_ semicolon_notMem_package
    rw [needle_imports]
    simp
  · rw [hits_eq_zero_iff (isSealed_needle (.inr rfl)).ne_nil]
    rintro ⟨x, y, hxy⟩
    exact needle_imports_ne x y (by rw [← hxy, List.append_assoc])

/-! ## Two stacks in one file -/

/-- The main file without blocks, cut behind the two texts that blocks go behind. -/
structure MainCut (s : Selection ι) (part other : Part) (c₁ c₂ c₃ : List Char) : Prop where
  isMain : part.IsMain
  isMain_other : other.IsMain
  ne : part ≠ other
  first : ∃ x, c₁ = x ++ part.needle.toList
  second : ∃ x, c₂ = x ++ other.needle.toList
  needles : ∀ p : Part, p.IsMain → hits p.needle.toList (c₁ ++ (c₂ ++ c₃)) = 1
  fresh : ∀ p : Part, p.IsMain → ∀ i, occursIn (s.block p i) (c₁ ++ (c₂ ++ c₃)) = false

section MainCut

variable {c₁ c₂ c₃ : List Char}

/-- The file with blocks behind the two texts. -/
def mainText (s : Selection ι) (part other : Part) (c₁ c₂ c₃ : List Char) (is js : List ι) : List Char :=
  c₁ ++ (is.flatMap (s.block part) ++ (c₂ ++ (js.flatMap (s.block other) ++ c₃)))

/-- A sealed text stands in the file as often as in the blocks and in the file without them. -/
theorem MainCut.hits_mainText (h : s.MainCut part other c₁ c₂ c₃) {p : List Char} (hp : IsSealed p)
    (is js : List ι) : hits p (s.mainText part other c₁ c₂ c₃ is js) =
      hits p (is.flatMap (s.block part)) + hits p (js.flatMap (s.block other)) + hits p (c₁ ++ (c₂ ++ c₃)) := by
  have h₁ : NotAcross p c₁ := by
    obtain ⟨x, rfl⟩ := h.first
    exact hp.notAcross (isSealed_needle h.isMain) x
  have h₂ : NotAcross p c₂ := by
    obtain ⟨x, rfl⟩ := h.second
    exact hp.notAcross (isSealed_needle h.isMain_other) x
  have hblocks (part : Part) (hpart : part.IsMain) (is : List ι) : NotAcross p (is.flatMap (s.block part)) :=
    notAcross_flatMap fun i _ => hp.notAcross (isSealed_block hpart i) []
  rw [mainText, hits_append h₁, hits_append (hblocks part h.isMain is), hits_append h₂,
    hits_append (hblocks other h.isMain_other js), hits_append h₁, hits_append h₂]
  omega

theorem MainCut.hits_needle (h : s.MainCut part other c₁ c₂ c₃) {p : Part} (hp : p.IsMain) (is js : List ι) :
    hits p.needle.toList (s.mainText part other c₁ c₂ c₃ is js) = 1 := by
  have hnone (part : Part) (hpart : part.IsMain) (is : List ι) :
      hits p.needle.toList (is.flatMap (s.block part)) = 0 :=
    hits_flatMap_eq_zero (fun i _ => (isSealed_needle hp).notAcross (isSealed_block hpart i) [])
      fun i _ => Selection.hits_needle hp hpart
  rw [h.hits_mainText (isSealed_needle hp), hnone part h.isMain, hnone other h.isMain_other, h.needles p hp]

theorem MainCut.hits_block [DecidableEq ι] (h : s.MainCut part other c₁ c₂ c₃) (k : ι) (is js : List ι) :
    hits (s.block part k) (s.mainText part other c₁ c₂ c₃ is js) = is.count k ∧
      hits (s.block other k) (s.mainText part other c₁ c₂ c₃ is js) = js.count k := by
  have hself (part : Part) (hpart : part.IsMain) (is : List ι) :
      hits (s.block part k) (is.flatMap (s.block part)) = is.count k :=
    hits_flatMap_eq_count (fun i _ => (isSealed_block hpart k).notAcross (isSealed_block hpart i) [])
      fun i _ => hits_block_self hpart
  have hnone (part other : Part) (hpart : part.IsMain) (hother : other.IsMain) (hne : part ≠ other) (is : List ι) :
      hits (s.block part k) (is.flatMap (s.block other)) = 0 :=
    hits_flatMap_eq_zero (fun i _ => (isSealed_block hpart k).notAcross (isSealed_block hother i) [])
      fun i _ => hits_block_other hpart hother hne
  have hbase (p : Part) (hp : p.IsMain) : hits (s.block p k) (c₁ ++ (c₂ ++ c₃)) = 0 :=
    hits_eq_zero_of_not_occursIn (isSealed_block hp k).ne_nil (h.fresh p hp k)
  constructor
  · rw [h.hits_mainText (isSealed_block h.isMain k), hself part h.isMain, hnone part other h.isMain h.isMain_other h.ne,
      hbase part h.isMain, Nat.add_zero]
  · rw [h.hits_mainText (isSealed_block h.isMain_other k), hself other h.isMain_other, hnone other part h.isMain_other h.isMain h.ne.symm,
      hbase other h.isMain_other, Nat.zero_add, Nat.add_zero]

/-- The blocks of one part are stacked, whichever of the other part are there. -/
theorem MainCut.stack_first [DecidableEq ι] (h : s.MainCut part other c₁ c₂ c₃) (js : List ι) :
    Stack (.literal part.needle) (s.block part) c₁ (c₂ ++ (js.flatMap (s.block other) ++ c₃)) := by
  obtain ⟨x, hx⟩ := h.first
  refine ⟨⟨x, part.needle.toList, hx, fun is => ?_⟩, fun k hne => ?_⟩
  · refine Anchor.onlyPlace_literal (isSealed_needle h.isMain).ne_nil ?_
    have hone := h.hits_needle h.isMain is js
    rw [mainText, hx, List.append_assoc] at hone
    exact hone
  · exact ⟨s.block part k, hne, List.prefix_refl _, fun is => (h.hits_block k is js).1⟩

theorem MainCut.stack_second [DecidableEq ι] (h : s.MainCut part other c₁ c₂ c₃) (is : List ι) :
    Stack (.literal other.needle) (s.block other) (c₁ ++ (is.flatMap (s.block part) ++ c₂)) c₃ := by
  obtain ⟨x, hx⟩ := h.second
  refine ⟨⟨c₁ ++ (is.flatMap (s.block part) ++ x), other.needle.toList, by rw [hx]; simp, fun js => ?_⟩,
    fun k hne => ?_⟩
  · refine Anchor.onlyPlace_literal (isSealed_needle h.isMain_other).ne_nil ?_
    have hone := h.hits_needle h.isMain_other is js
    rw [mainText, hx] at hone
    simpa only [List.append_assoc] using hone
  · refine ⟨s.block other k, hne, List.prefix_refl _, fun js => ?_⟩
    have hcount := (h.hits_block k is js).2
    rw [mainText] at hcount
    simpa only [List.append_assoc] using hcount

theorem needle_not_infix (h : part.IsMain) (hother : other.IsMain) (hne : part ≠ other) :
    ¬other.needle.toList <:+: part.needle.toList := by
  rcases h with rfl | rfl <;> rcases hother with rfl | rfl
  · exact absurd rfl hne
  · have hsemicolon : ';' ∈ Part.imports.needle.toList ∧ ';' ∉ Part.package.needle.toList := by decide +kernel
    exact fun hpart => hsemicolon.2 (hpart.subset hsemicolon.1)
  · have hparen : ')' ∈ Part.package.needle.toList ∧ ')' ∉ Part.imports.needle.toList := by decide +kernel
    exact fun hpart => hparen.2 (hpart.subset hparen.1)
  · exact absurd rfl hne

/-- Of the two texts that blocks go behind, one ends before the other one starts. -/
theorem exists_of_needles (h : part.IsMain) (hother : other.IsMain) (hne : part ≠ other) {x y x' y' : List Char}
    (heq : x ++ (part.needle.toList ++ y) = x' ++ (other.needle.toList ++ y')) (hle : x.length ≤ x'.length) :
    ∃ z, x' = x ++ (part.needle.toList ++ z) := by
  have hnot := needle_not_infix h hother hne
  rcases List.append_eq_append_iff.mp heq with ⟨z, rfl, hz⟩ | ⟨z, rfl, hz⟩
  · rcases List.append_eq_append_iff.mp hz with ⟨w, rfl, -⟩ | ⟨w, hw, hwy⟩
    · exact ⟨w, rfl⟩
    · by_cases hw_nil : w = []
      · exact ⟨[], by rw [hw, hw_nil, List.append_nil, List.append_nil]⟩
      · exfalso
        rcases List.append_eq_append_iff.mp hwy with ⟨v, rfl, -⟩ | ⟨v, hv, -⟩
        · exact hnot ⟨z, v, by rw [hw, List.append_assoc]⟩
        · by_cases hv_nil : v = []
          · rw [hv_nil, List.append_nil] at hv
            exact hnot ⟨z, [], by rw [hw, hv, List.append_nil]⟩
          · have hacross := (isSealed_needle hother).notAcross (isSealed_needle h) []
            exact hacross w v hv hw_nil hv_nil ⟨z, by rw [hw, List.nil_append]⟩
  · have hz_nil : z = [] := by
      rw [List.length_append] at hle
      exact List.length_eq_zero_iff.mp (by omega)
    subst hz_nil
    exfalso
    rw [List.nil_append] at hz
    rcases List.append_eq_append_iff.mp hz with ⟨v, hv, -⟩ | ⟨v, hv, -⟩
    · exact hnot ⟨[], v, by rw [hv, List.nil_append]⟩
    · exact needle_not_infix hother h hne.symm ⟨[], v, by rw [hv, List.nil_append]⟩

/-- A file with one place for each of the two parts is cut behind both of them, in one order or the other. -/
theorem exists_mainCut {content : List Char}
    (hplaces : ∀ p : Part, p.IsMain → ((Anchor.literal p.needle).places content).length = 1)
    (hfresh : ∀ p : Part, p.IsMain → ∀ i, occursIn (s.block p i) content = false) :
    ∃ c₁ c₂ c₃, content = c₁ ++ (c₂ ++ c₃) ∧
      (s.MainCut .package .imports c₁ c₂ c₃ ∨ s.MainCut .imports .package c₁ c₂ c₃) := by
  have hplace (p : Part) (hp : p.IsMain) : ∃ x y, content = x ++ (p.needle.toList ++ y) ∧
      hits p.needle.toList content = 1 := by
    have hsealed := isSealed_needle hp
    obtain ⟨x, m, y, rfl, honly⟩ := Anchor.exists_onlyPlace (a := .literal p.needle)
      (fun x hx => by rw [show x = p.needle.toList from hx]; exact hsealed.ne_nil) (hplaces p hp)
    obtain ⟨rfl, hone⟩ := Anchor.hits_of_onlyPlace_literal (hsealed.notAcross hsealed []) honly
    exact ⟨x, y, rfl, hone⟩
  have hone (p : Part) (hp : p.IsMain) : hits p.needle.toList content = 1 := by
    obtain ⟨-, -, -, hone⟩ := hplace p hp
    exact hone
  have hcut (p q : Part) (hp : p.IsMain) (hq : q.IsMain) (hne : p ≠ q) {x y x' y' : List Char}
      (hx : content = x ++ (p.needle.toList ++ y)) (hx' : content = x' ++ (q.needle.toList ++ y'))
      (hle : x.length ≤ x'.length) : ∃ c₁ c₂ c₃, content = c₁ ++ (c₂ ++ c₃) ∧ s.MainCut p q c₁ c₂ c₃ := by
    obtain ⟨z, rfl⟩ := exists_of_needles hp hq hne (hx.symm.trans hx') hle
    have hcontent : content = (x ++ p.needle.toList) ++ ((z ++ q.needle.toList) ++ y') := by
      rw [hx']
      simp only [List.append_assoc]
    refine ⟨_, _, _, hcontent, hp, hq, hne, ⟨x, rfl⟩, ⟨z, rfl⟩, fun r hr => ?_, fun r hr i => ?_⟩
    · rw [← hcontent]
      exact hone r hr
    · rw [← hcontent]
      exact hfresh r hr i
  obtain ⟨x, y, hx, -⟩ := hplace .package (.inl rfl)
  obtain ⟨x', y', hx', -⟩ := hplace .imports (.inr rfl)
  rcases Nat.le_total x.length x'.length with hle | hle
  · obtain ⟨c₁, c₂, c₃, hcontent, h⟩ := hcut .package .imports (.inl rfl) (.inr rfl) (by decide) hx hx' hle
    exact ⟨c₁, c₂, c₃, hcontent, .inl h⟩
  · obtain ⟨c₁, c₂, c₃, hcontent, h⟩ := hcut .imports .package (.inr rfl) (.inl rfl) (by decide) hx' hx hle
    exact ⟨c₁, c₂, c₃, hcontent, .inr h⟩

end MainCut

end Selection
end Android
end ModuleLink
