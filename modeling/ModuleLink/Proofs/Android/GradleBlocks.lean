import ModuleLink.Proofs.Android.InstallPattern
import ModuleLink.Proofs.Android.Selection

/-!
The blocks in the build files.  The blocks of all libraries look alike; they differ in the names only, and none of the
names is a part of another one together with what stands around it.
-/

namespace ModuleLink
namespace Android

open Patch Insertion Text

namespace Selection

variable {ι : Type} {s : Selection ι} {i k : ι}

/-! ## The build file -/

/-- The start of the line up to the name, which tells where the name is. -/
def buildFront : List Char := "    implementation project('".toList

def buildBack : List Char := ")\n".toList

theorem block_build : s.block .build i = buildFront ++ ':' :: ([] ++ (s.project i ++ '\'' :: buildBack)) := by
  have hfront : "    implementation project(':".toList = buildFront ++ [':'] := by decide
  have hback : "')\n".toList = '\'' :: buildBack := by decide
  show ("    implementation project(':" ++ projectName (s.get i).name ++ "')\n").toList = _
  rw [String.toList_append, String.toList_append, hfront, hback, project, List.append_assoc, List.append_assoc]
  rfl

theorem colon_notMem_buildFront : ':' ∉ buildFront := by decide

theorem colon_notMem_build : ':' ∉ [] ++ (s.project i ++ '\'' :: buildBack) := by
  have hback : ':' ∉ '\'' :: buildBack := by decide
  rw [List.nil_append, List.mem_append, not_or]
  exact ⟨s.notMem_project i (by decide), hback⟩

theorem hits_block_build [DecidableEq ι] :
    hits (s.block .build k) (s.block .build i) = if i = k then 1 else 0 := by
  have hquote (i : ι) : '\'' ∉ s.project i := s.notMem_project i (by decide)
  rw [block_build, block_build, hits_frame colon_notMem_buildFront colon_notMem_build (hquote i) (hquote k)]
  by_cases hik : i = k
  · rw [if_pos hik, if_pos (by rw [hik])]
  · rw [if_neg hik, if_neg fun h => hik (s.eq_of_project_eq h)]

theorem isLine_block_build : IsLine (s.block .build i) := by
  have hback : buildBack = [')', '\n'] := by decide
  have hfront : '\n' ∉ buildFront := by decide
  have hname : '\n' ∉ s.project i := s.notMem_project i (by decide)
  refine ⟨buildFront ++ ':' :: (s.project i ++ ['\'', ')']), ?_, ?_⟩
  · rw [block_build, hback, List.append_assoc, List.cons_append, List.append_assoc]
    rfl
  · rw [List.mem_append, List.mem_cons, List.mem_append, not_or, not_or, not_or]
    exact ⟨hfront, by decide, hname, by decide⟩

/-- The opening line of the dependencies does not start like a block. -/
theorem rest?_dependenciesLine_block (w : List Char) :
    Anchor.dependenciesLine.rest? true (s.block .build i ++ w) = none := by
  have hfront : buildFront = ' ' :: "   implementation project('".toList := by decide
  rw [block_build, hfront, List.cons_append, List.cons_append]
  exact Anchor.rest?_dependenciesLine_of_head (by decide)

theorem stack_build [DecidableEq ι] {u m v : List Char} (h : Anchor.dependenciesLine.OnlyPlace u m v)
    (hbase : ∀ i, occursIn (s.block .build i) (u ++ m ++ v) = false) :
    Stack .dependenciesLine (s.block .build) (u ++ m) v := by
  obtain ⟨⟨c, hc, rfl⟩, -⟩ := h.piece
  exact stack_of_isLine h hc (fun _ => isLine_block_build) (fun _ => rfl) (fun _ => rest?_dependenciesLine_block)
    (fun _ _ => hits_block_build) hbase

/-! ## Dependencies in the build file -/

theorem exists_dependencyText : ∃ x, IsDependencyText (projectName (s.get i).name) x ∧ x <:+: s.block .build i :=
  exists_dependencyText_buildInsertion _

theorem hits_dependencyText {x : List Char} (hx : IsDependencyText (projectName (s.get k).name) x) (hik : i ≠ k) :
    hits x (s.block .build i) = 0 := by
  rw [hits_eq_zero_iff hx.ne_nil]
  rintro ⟨y, z, hyz⟩
  obtain ⟨-, -, -, -, -, hq'⟩ := hx
  rename_i word ws bs os q q'
  have hsplit : buildFront ++ ':' :: ([] ++ (s.project i ++ '\'' :: buildBack)) =
      (y ++ (word ++ (ws ++ (bs ++ (os ++ (projectOpening ++ [q])))))) ++ ':' :: (s.project k ++ q' :: (')' :: z)) := by
    rw [← block_build, ← hyz, projectTerm, project]
    simp only [List.append_assoc, List.cons_append, List.nil_append]
  obtain ⟨-, -, hrest⟩ := (List.append_cons_inj_of_notMem colon_notMem_buildFront colon_notMem_build).mp hsplit
  have hquote : q' ∉ s.project i := by
    rcases hq' with rfl | rfl <;> exact s.notMem_project i (by decide)
  exact hik (s.eq_of_project_eq (append_cons_inj hrest (s.notMem_project k (by decide)) hquote).1)

/-- The build file depends on the libraries whose blocks are there, and on no other one. -/
theorem hasDependency_iff [DecidableEq ι] {u m v : List Char} (h : Anchor.dependenciesLine.OnlyPlace u m v)
    (hbase : hasDependency (s.get k).name (u ++ m ++ v) = false) (is : List ι) :
    hasDependency (s.get k).name (u ++ m ++ (is.flatMap (s.block .build) ++ v)) = true ↔ k ∈ is := by
  rw [hasDependency, hasDependencyChars_iff]
  constructor
  · rintro ⟨x, hx, hpart⟩
    by_contra hk
    obtain ⟨l, g, hm, hg⟩ : ∃ l g, m = l ++ '\x7b' :: g ∧ ∀ c ∈ g, isBlank c = true := by
      obtain ⟨y, hy, hbrace, -⟩ := Anchor.takes_dependenciesLine _ _ _ h.first.here
      obtain rfl : m = y := List.append_cancel_right hy
      exact hbrace
    have hhead : ∀ g : List Char, (∀ c ∈ g, isBlank c = true) → ∀ c ∈ g, x.head? ≠ some c := by
      intro g hg c hc hhead
      obtain ⟨d, hd, hblank⟩ := hx.head?
      rw [hhead, Option.some.injEq] at hd
      rw [← hd, hg c hc] at hblank
      contradiction
    have hdropLast {c : Char} (hc : IsCloser c) (hname : isNameChar c = false) : c ∉ x.dropLast :=
      hc.notMem_dropLast (s.notMem_project k hname) hx
    have hpre : NotAcross x (u ++ m) := by
      rw [hm, ← List.append_assoc]
      exact notAcross_of_head (hdropLast ⟨by decide, by decide, by decide, by simp [IsQuote]⟩ (by decide)) (hhead g hg) _
    have hcut : ∀ i ∈ is, NotAcross x (s.block .build i) := by
      intro i _
      have hback : buildBack = [')', '\n'] := by decide
      have hline : s.block .build i = (buildFront ++ ':' :: (s.project i ++ ['\''])) ++ ')' :: ['\n'] := by
        rw [block_build, hback]
        simp only [List.append_assoc, List.cons_append, List.nil_append]
      rw [hline]
      exact notAcross_of_head (hdropLast ⟨by decide, by decide, by decide, by simp [IsQuote]⟩ (by decide))
        (hhead _ (by simp [isBlank])) _
    have hnone : ∀ i ∈ is, hits x (s.block .build i) = 0 := fun i hi => hits_dependencyText hx fun e => hk (e ▸ hi)
    have hbase' : occursIn x (u ++ m ++ v) = false := by
      rw [Bool.eq_false_iff, Ne, occursIn_iff_infix]
      intro hocc
      have := hasDependencyChars_iff.mpr ⟨x, hx, hocc⟩
      rw [hasDependency, this] at hbase
      contradiction
    have hzero := hits_between_eq_zero hx.ne_nil hbase' hpre hcut hnone
    exact (hits_eq_zero_iff hx.ne_nil).mp hzero hpart
  · intro hk
    obtain ⟨x, hx, hpart⟩ := exists_dependencyText (s := s) (i := k)
    refine ⟨x, hx, hpart.trans ?_⟩
    obtain ⟨l₁, l₂, rfl⟩ := List.append_of_mem hk
    exact ⟨u ++ m ++ l₁.flatMap (s.block .build), l₂.flatMap (s.block .build) ++ v, by simp⟩

/-! ## The settings -/

def includeFront : List Char := "include ':".toList

def projectFront : List Char := "project(':".toList

def folderFront : List Char := ").projectDir = new File(rootProject.projectDir, '".toList

/-- The line that includes the library. -/
def includedLine (s : Selection ι) (i : ι) : List Char := includeFront ++ (s.project i ++ ['\''])

/-- The line that says where the library is. -/
def folderLine (s : Selection ι) (i : ι) : List Char := projectFront ++ (s.project i ++ '\'' :: (folderFront ++ (s.way i ++ ['\'', ')'])))

theorem block_settings : s.block .settings i = s.includedLine i ++ '\n' :: (s.folderLine i ++ ['\n']) := by
  have h₀ : "include ':".toList = includeFront := rfl
  have h₁ : "'\nproject(':".toList = ['\'', '\n'] ++ projectFront := by decide
  have h₂ : "').projectDir = new File(rootProject.projectDir, '".toList = '\'' :: folderFront := by
    decide +kernel
  have h₃ : "')\n".toList = ['\'', ')', '\n'] := by decide
  show ("include ':" ++ projectName (s.get i).name ++ "'\nproject(':" ++ projectName (s.get i).name ++
    "').projectDir = new File(rootProject.projectDir, '" ++
    (Path.relative s.here (s.get i).library.sourceDir s.app.settingsGradle.parent).toString ++ "')\n").toList = _
  rw [String.toList_append, String.toList_append, String.toList_append, String.toList_append, String.toList_append,
    String.toList_append, h₀, h₁, h₂, h₃, includedLine, folderLine, project, way]
  simp only [List.append_assoc, List.cons_append, List.nil_append]

theorem newline_notMem_includedLine : '\n' ∉ s.includedLine i := by
  have hfront : '\n' ∉ includeFront := by decide
  rw [includedLine, List.mem_append, List.mem_append, not_or, not_or]
  exact ⟨hfront, s.notMem_project i (by decide), by decide⟩

theorem newline_notMem_folderLine : '\n' ∉ s.folderLine i := by
  have hfront : '\n' ∉ projectFront := by decide
  have hfolder : '\n' ∉ folderFront := by decide
  have hway : '\n' ∉ s.way i := s.sources_line i
  rw [folderLine]
  simp only [List.mem_append, List.mem_cons, List.not_mem_nil, or_false, not_or]
  exact ⟨hfront, s.notMem_project i (by decide), by decide, hfolder, hway, by decide, by decide⟩

theorem count_newline_settings : (s.block .settings i).count '\n' = 2 := by
  rw [block_settings, List.count_append, List.count_cons_self, List.count_append,
    List.count_eq_zero.mpr newline_notMem_includedLine, List.count_eq_zero.mpr newline_notMem_folderLine]
  rfl

theorem getLast_block_settings : (s.block .settings i).getLast? = some '\n' := by
  have hend : s.block .settings i = (s.includedLine i ++ '\n' :: s.folderLine i) ++ ['\n'] := by
    rw [block_settings]
    simp
  rw [hend, List.getLast?_concat]

/-- A block of two lines is cut behind a line end in one way only. -/
theorem block_settings_cut {z w : List Char} (h : s.block .settings i = z ++ w) (hw : w ≠ [])
    (hz : z.getLast? = some '\n') : z = s.includedLine i ++ ['\n'] ∧ w = s.folderLine i ++ ['\n'] := by
  obtain ⟨l, rfl⟩ := List.getLast?_eq_some_iff.mp hz
  have hlast : w.getLast? = some '\n' := by
    rw [← List.getLast?_append_of_ne_nil _ hw, ← h, getLast_block_settings]
  have hpos : 0 < w.count '\n' := List.count_pos_iff.mpr (List.mem_of_getLast? hlast)
  have hcount := count_newline_settings (s := s) (i := i)
  rw [h, List.count_append, List.count_append, List.count_singleton_self] at hcount
  have hl : '\n' ∉ l := List.count_eq_zero.mp (by omega)
  rw [block_settings, List.append_assoc, List.singleton_append] at h
  obtain ⟨rfl, -, rfl⟩ := append_cons_inj h hl newline_notMem_includedLine
  exact ⟨rfl, rfl⟩

theorem hits_block_settings [DecidableEq ι] :
    hits (s.block .settings k) (s.block .settings i) = if i = k then 1 else 0 := by
  have hne : s.block .settings k ≠ [] := by
    rw [block_settings]
    simp
  by_cases hik : i = k
  · subst hik
    rw [if_pos rfl, hits_self hne]
  · rw [if_neg hik, hits_eq_zero_iff hne]
    rintro ⟨x, y, hxy⟩
    have hcount := congrArg (List.count '\n') hxy
    rw [List.count_append, List.count_append, count_newline_settings, count_newline_settings] at hcount
    have hx : '\n' ∉ x := List.count_eq_zero.mp (by omega)
    have hsplit : s.includedLine i ++ '\n' :: (s.folderLine i ++ ['\n']) =
        (x ++ s.includedLine k) ++ '\n' :: (s.folderLine k ++ '\n' :: y) := by
      rw [← block_settings, ← hxy, block_settings]
      simp only [List.append_assoc, List.cons_append, List.nil_append]
    have hline : '\n' ∉ x ++ s.includedLine k := by
      rw [List.mem_append, not_or]
      exact ⟨hx, newline_notMem_includedLine⟩
    obtain ⟨-, -, hrest⟩ := append_cons_inj hsplit hline newline_notMem_includedLine
    obtain ⟨hfolder, -, -⟩ := append_cons_inj hrest newline_notMem_folderLine newline_notMem_folderLine
    rw [folderLine, folderLine] at hfolder
    have hquote (i : ι) : '\'' ∉ s.project i := s.notMem_project i (by decide)
    exact hik (s.eq_of_project_eq (append_cons_inj (List.append_cancel_left hfolder) (hquote k) (hquote i)).1)

/-- No block starts with the end of another one. -/
theorem notAcross_block_settings : NotAcross (s.block .settings k) (s.block .settings i) := by
  intro z w h hz hw hsuffix
  have hlast : z.getLast? = some '\n' := by
    obtain ⟨t, ht⟩ := hsuffix
    rw [← List.getLast?_append_of_ne_nil t hz, ht, getLast_block_settings]
  obtain ⟨rfl, -⟩ := block_settings_cut h hw hlast
  -- The first line ends in a quote, and the second one in a parenthesis.
  obtain ⟨t, ht⟩ := hsuffix
  have htails : (t ++ (includeFront ++ s.project k)) ++ ['\'', '\n'] = (s.includedLine i ++ '\n' :: (projectFront ++
      (s.project i ++ '\'' :: (folderFront ++ (s.way i ++ ['\'']))))) ++ [')', '\n'] := by
    rw [block_settings, includedLine, folderLine] at ht
    simpa only [List.append_assoc, List.cons_append, List.nil_append] using ht
  have hends := (List.append_inj' htails rfl).2
  simp at hends

/-- What stands once in the settings stands there as often with the blocks of the libraries. -/
theorem hits_settings [DecidableEq ι] {a b : List Char} (ha : a.getLast? = some '\n')
    (hbase : occursIn (s.block .settings k) (a ++ b) = false) (is : List ι) :
    hits (s.block .settings k) (a ++ (is.flatMap (s.block .settings) ++ b)) = is.count k := by
  have hne : s.block .settings k ≠ [] := by
    rw [block_settings]
    simp
  cases is with
  | nil => exact hits_eq_zero_of_not_occursIn hne hbase
  | cons i is =>
    obtain ⟨hpre, hpost⟩ := hits_eq_zero_of_append hne hbase
    have hcut : ∀ j ∈ i :: is, NotAcross (s.block .settings k) (s.block .settings j) :=
      fun _ _ => notAcross_block_settings
    have hone : ∀ j ∈ i :: is, hits (s.block .settings k) (s.block .settings j) = if j = k then 1 else 0 :=
      fun _ _ => hits_block_settings
    rw [hits_append_of, hits_append (notAcross_flatMap hcut), hits_flatMap_eq_count hcut hone, hpre, hpost,
      Nat.zero_add, Nat.add_zero]
    -- The second line does not start like the first one.
    rintro z w h hz hw ⟨t, rfl⟩ hprefix
    rw [List.getLast?_append_of_ne_nil _ hz] at ha
    obtain ⟨-, rfl⟩ := block_settings_cut h hw ha
    have hproject : projectFront = 'p' :: "roject(':".toList := by decide
    have hinclude : includeFront = 'i' :: "nclude ':".toList := by decide
    rw [List.flatMap_cons, block_settings, folderLine, includedLine, hproject, hinclude] at hprefix
    simp only [List.append_assoc, List.cons_append] at hprefix
    exact absurd (List.cons_prefix_cons.mp hprefix).1 (by decide)

theorem eq_of_quoted {app m t r : List Char} {q : Char} (h : m ++ '\'' :: '\n' :: t = app ++ q :: r) (hq : IsQuote q)
    (hm : q ∉ m) (happ : '\n' ∉ app) : app = m := by
  rcases List.append_eq_append_iff.mp h with ⟨z, rfl, hz⟩ | ⟨z, rfl, hz⟩
  · cases z with
    | nil => simp
    | cons c z =>
      obtain ⟨-, hz⟩ := List.cons.inj hz
      cases z with
      | nil =>
        obtain ⟨rfl, -⟩ := List.cons.inj hz
        simp [IsQuote] at hq
      | cons d z =>
        obtain ⟨rfl, -⟩ := List.cons.inj hz
        simp at happ
  · cases z with
    | nil => simp
    | cons c z =>
      obtain ⟨rfl, -⟩ := List.cons.inj hz
      simp at hm

/-- The line that includes a library does not include the app. -/
theorem rest?_includeLine_includedLine (t : List Char) :
    (Anchor.includeLine s.appName).rest? true (s.includedLine i ++ '\n' :: t) = none := by
  have hfront : includeFront = "include".toList ++ [' ', '\'', ':'] := by decide
  have htext : s.includedLine i ++ '\n' :: t =
      "include".toList ++ ' ' :: '\'' :: ':' :: (s.project i ++ '\'' :: '\n' :: t) := by
    rw [includedLine, hfront, List.append_assoc, List.append_assoc, List.append_assoc]
    rfl
  have hgaps (cs : List Char) : skipGaps (Patch.optional '(' (skipGaps (' ' :: '\'' :: cs))) = '\'' :: cs := by
    simp [skipGaps, Patch.optional, isGap]
  by_contra hne
  obtain ⟨r, hr⟩ := Option.ne_none_iff_exists'.mp hne
  rw [htext, Anchor.rest?, if_pos rfl, after?_append, Option.bind_eq_bind, Option.bind_some, hgaps] at hr
  obtain ⟨r', hquoted, -⟩ := Option.bind_eq_some_iff.mp hr
  obtain ⟨q, q', -, hq', hname⟩ := quoted?_eq_some_iff.mp hquoted
  have hproject : s.project i ++ '\'' :: '\n' :: t = s.appName.toList ++ q' :: r' := by
    simpa using (List.cons.inj hname).2
  have hquote : q' ∉ s.project i := by
    rcases hq' with rfl | rfl <;> exact s.notMem_project i (by decide)
  have hsame := eq_of_quoted hproject hq' hquote s.appName_line
  exact s.project_ne i (String.toList_inj.mp hsame.symm)

theorem rest?_includeLine_block {t₁ t₂ : List Char} (h : s.block .settings i = t₁ ++ t₂) (hne : t₂ ≠ [])
    (w : List Char) : (Anchor.includeLine s.appName).rest? (Anchor.freshBehind true t₁) (t₂ ++ w) = none := by
  cases hlast : t₁.getLast? with
  | none =>
    obtain rfl := List.getLast?_eq_none_iff.mp hlast
    rw [List.nil_append, block_settings] at h
    rw [← h, List.append_assoc, List.cons_append]
    exact rest?_includeLine_includedLine _
  | some c =>
    rw [Anchor.freshBehind_of_getLast hlast]
    by_cases hc : c = '\n'
    · rw [hc] at hlast ⊢
      obtain ⟨-, rfl⟩ := block_settings_cut h hne hlast
      have hproject : projectFront = 'p' :: "roject(':".toList := by decide
      rw [folderLine, hproject, List.cons_append, List.cons_append, List.cons_append]
      exact Anchor.rest?_includeLine_of_head (by decide)
    · rw [beq_eq_false_iff_ne.mpr hc]
      rfl

theorem stack_settings [DecidableEq ι] {u m v : List Char} (h : (Anchor.includeLine s.appName).OnlyPlace u m v)
    (hbase : ∀ i, occursIn (s.block .settings i) (u ++ m ++ v) = false) :
    Stack (.includeLine s.appName) (s.block .settings) (u ++ m) v := by
  have hplace : (u ++ m).getLast? = some '\n' := by
    obtain ⟨⟨c, hc, rfl⟩, -⟩ := h.piece
    rw [List.getLast?_append, hc]
    rfl
  refine ⟨⟨u, m, rfl, h.insert_lines hplace (fun i _ => getLast_block_settings)
    fun i t₁ t₂ w e hne => rest?_includeLine_block e hne w⟩, fun k hne => ?_⟩
  exact ⟨s.block .settings k, hne, List.prefix_refl _, hits_settings hplace (hbase k)⟩

end Selection
end Android
end ModuleLink
