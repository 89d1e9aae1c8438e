import Mathlib
import ModuleLink.Proofs.Ios.LinkedProject
import ModuleLink.Proofs.Ios.Podfile

/-!
Several pods in one Podfile, linked and unlinked in any order.  At any time the Podfile is what it was in the beginning,
with the lines of the pods that are linked right behind the line of the target, the last one first.
-/

namespace ModuleLink
namespace Ios

open Patch Insertion Text Workspace

/-! ## Selections -/

/-- A text that neither ends a quoted text nor a line. -/
def IsPlainText (cs : List Char) : Prop := ∀ c ∈ cs, ¬IsQuote c ∧ c ≠ '\n'

instance (cs : List Char) : Decidable (IsPlainText cs) := List.decidableBAll _ cs

theorem IsPlainText.notMem {cs : List Char} {c : Char} (h : IsPlainText cs) (hc : IsQuote c ∨ c = '\n') : c ∉ cs :=
  fun hmem => hc.elim (h c hmem).1 (h c hmem).2

/-- Libraries that are linked by a line in the Podfile of one app, and can be told apart by their pods. -/
structure PodSelection (ι : Type) where
  app : App
  here : Path
  podfile : Path
  name : ι → String
  library : ι → Library
  podspec : ι → Path
  route_eq : ∀ i, route app (library i) = .podLine podfile (podspec i)
  pod_injective : Function.Injective fun i => podName (podspec i)
  pod_plain : ∀ i, IsPlainText (podName (podspec i)).toList
  way_plain : ∀ i, IsPlainText (Path.relative here (library i).folder podfile.parent).toString.toList

namespace PodSelection

variable {ι : Type} (s : PodSelection ι) (i k : ι)

def pod : List Char := (podName (s.podspec i)).toList

/-- The way from the Podfile to the library. -/
def way : List Char := (Path.relative s.here (s.library i).folder s.podfile.parent).toString.toList

def insertion : Insertion := podInsertionFor s.here s.app (s.library i) s.podfile (s.podspec i)

/-- The line of a library in the Podfile. -/
def line : List Char := (s.insertion i).chars

/-- The anchor of all lines. -/
def target : Anchor := .targetLine s.app.target

theorem isBehind : (s.insertion i).IsBehind s.target := isBehind_podInsertionFor _ _ _ _ _

theorem nonempty : (s.insertion i).isEmpty = false := podInsertion_nonempty _ _ _ _ _

theorem eq_of_pod_eq {i k : ι} (h : s.pod i = s.pod k) : i = k := s.pod_injective (String.toList_inj.mp h)

theorem isPlainText_pod : IsPlainText (s.pod i) := s.pod_plain i

theorem isPlainText_way : IsPlainText (s.way i) := s.way_plain i

variable {s : PodSelection ι} {i k : ι}

/-! ## Lines -/

def lineFront : List Char := "  pod ".toList

def lineMiddle : List Char := ", :path => ".toList

/-- The line up to its last quote. -/
def lineStart (s : PodSelection ι) (i : ι) : List Char :=
  lineFront ++ '\'' :: (s.pod i ++ '\'' :: (lineMiddle ++ '\'' :: s.way i))

theorem line_eq : s.line i = s.lineStart i ++ ['\'', '\n'] := by
  have hchars := chars_podInsertion s.here s.app.target (podName (s.podspec i)) (s.library i).folder s.podfile
  show (podInsertion _ _ _ _ _).chars = _
  rw [hchars, lineStart]
  simp only [List.append_assoc, List.cons_append]
  rfl

theorem isLine_line : IsLine (s.line i) := by
  have hfront : '\n' ∉ lineFront := by decide
  have hmiddle : '\n' ∉ lineMiddle := by decide
  refine ⟨s.lineStart i ++ ['\''], by rw [line_eq, List.append_assoc]; rfl, ?_⟩
  simp only [lineStart, List.mem_append, List.mem_cons, List.not_mem_nil, or_false, not_or]
  exact ⟨⟨hfront, by decide, (s.isPlainText_pod i).notMem (.inr rfl), by decide, hmiddle, by decide,
    (s.isPlainText_way i).notMem (.inr rfl)⟩, by decide⟩

theorem count_quote_line : (s.line i).count '\'' = 4 := by
  have hfront : lineFront.count '\'' = 0 := by decide
  have hmiddle : lineMiddle.count '\'' = 0 := by decide
  have hpod : (s.pod i).count '\'' = 0 := List.count_eq_zero.mpr ((s.isPlainText_pod i).notMem (.inl (.inl rfl)))
  have hway : (s.way i).count '\'' = 0 := List.count_eq_zero.mpr ((s.isPlainText_way i).notMem (.inl (.inl rfl)))
  have hend : ['\'', '\n'].count '\'' = 1 := by decide
  rw [line_eq, lineStart]
  simp only [List.count_append, List.count_cons_self, hfront, hmiddle, hpod, hway, hend]

/-- No line stands inside another one: both hold four quotes, and the first two are around the pod. -/
theorem hits_line [DecidableEq ι] : hits (s.line k) (s.line i) = if i = k then 1 else 0 := by
  by_cases hik : i = k
  · subst hik
    rw [if_pos rfl, hits_self isLine_line.ne_nil]
  · rw [if_neg hik, hits_eq_zero_iff isLine_line.ne_nil]
    rintro ⟨x, y, hxy⟩
    have hcount := congrArg (List.count '\'') hxy
    rw [List.count_append, List.count_append, count_quote_line, count_quote_line] at hcount
    have hx : '\'' ∉ x := List.count_eq_zero.mp (by omega)
    have hfront : '\'' ∉ lineFront := by decide
    have hsplit : (x ++ lineFront) ++ '\'' :: (s.pod k ++ '\'' :: (lineMiddle ++ '\'' :: (s.way k ++ '\'' :: '\n' :: y))) =
        lineFront ++ '\'' :: (s.pod i ++ '\'' :: (lineMiddle ++ '\'' :: (s.way i ++ ['\'', '\n']))) := by
      rw [line_eq, line_eq, lineStart, lineStart] at hxy
      simpa only [List.append_assoc, List.cons_append, List.nil_append] using hxy
    obtain ⟨-, -, hpods⟩ := append_cons_inj hsplit hfront (by simp [hx, hfront])
    have hpod (i : ι) : '\'' ∉ s.pod i := (s.isPlainText_pod i).notMem (.inl (.inl rfl))
    exact hik (s.eq_of_pod_eq (append_cons_inj hpods (hpod i) (hpod k)).1.symm)

/-- The line of a target does not start like a line for a pod. -/
theorem rest?_target_line (w : List Char) : s.target.rest? true (s.line i ++ w) = none := by
  have hfront : lineFront = ' ' :: ' ' :: 'p' :: "od ".toList := by decide
  obtain ⟨r, hr⟩ : ∃ r, s.line i = ' ' :: ' ' :: 'p' :: r := ⟨_, by rw [line_eq, lineStart, hfront]; rfl⟩
  have hskip : skipGaps (' ' :: ' ' :: 'p' :: (r ++ w)) = 'p' :: (r ++ w) := by simp [skipGaps, isGap]
  rw [hr]
  exact Anchor.rest?_targetLine_of_head hskip (by decide)

theorem stack_lines [DecidableEq ι] {u m v : List Char} (h : s.target.OnlyPlace u m v)
    (hbase : ∀ i, occursIn (s.line i) (u ++ m ++ v) = false) : Stack s.target s.line (u ++ m) v := by
  obtain ⟨⟨c, hc, rfl⟩, -⟩ := h.piece
  exact stack_of_isLine h hc (fun _ => isLine_line) (fun _ => rfl) (fun _ => rest?_target_line)
    (fun _ _ => hits_line) hbase

/-! ## Pods that are there -/

theorem closesLine_line : ClosesLine (s.line i) :=
  ⟨s.lineStart i, '\'', ['\n'], line_eq, by decide, by decide, by simp [isBlank], rfl⟩

/-- A line is a line for its own pod only. -/
theorem hasPod_line_iff : hasPod (podName (s.podspec k)) (s.line i) = true ↔ i = k := by
  rw [hasPod_iff]
  constructor
  · rintro ⟨x, y, hxy, hx, hy⟩
    obtain ⟨e, he, r, rfl⟩ : ∃ e, IsPodText (s.pod k) e ∧ e <+: y := podAt_iff.mp hy
    obtain @⟨bs, gs, q, q', hbs, -, hgs, hq, hq'⟩ := he
    -- The line has one line end, which is its last character, so the pod is looked for from its start on.
    obtain rfl : x = [] := by
      refine hx.resolve_right fun hlast => ?_
      have hnot := (isLine_line (s := s) (i := i)).notMem_front hxy (by simp)
      exact hnot (List.mem_of_getLast? hlast)
    have hsplit : lineFront ++ '\'' :: (s.pod i ++ '\'' :: (lineMiddle ++ '\'' :: (s.way i ++ ['\'', '\n']))) =
        (bs ++ ("pod".toList ++ gs)) ++ q :: (s.pod k ++ q' :: r) := by
      rw [line_eq, lineStart] at hxy
      simpa only [List.append_assoc, List.cons_append, List.nil_append] using hxy
    have hblank : ∀ g : List Char, (∀ c ∈ g, isBlank c = true) → '\'' ∉ g := by
      intro g hg hmem
      exact absurd (hg _ hmem) (by decide)
    have hword : '\'' ∉ "pod".toList := by decide
    have hfront : q ∉ lineFront := by
      rcases hq with rfl | rfl <;> decide
    have hquotes : '\'' ∉ bs ++ ("pod".toList ++ gs) := by
      rw [List.mem_append, List.mem_append, not_or, not_or]
      exact ⟨hblank bs hbs, hword, hblank gs hgs⟩
    obtain ⟨-, -, hpods⟩ := append_cons_inj hsplit hquotes hfront
    have hk : '\'' ∉ s.pod k := (s.isPlainText_pod k).notMem (.inl (.inl rfl))
    have hi : q' ∉ s.pod i := (s.isPlainText_pod i).notMem (.inl hq')
    exact s.eq_of_pod_eq (append_cons_inj hpods hk hi).1
  · rintro rfl
    refine ⟨[], s.line i, (List.nil_append _).symm, .inl rfl, ?_⟩
    have hpod := podAt_podInsertion s.here s.app.target (podName (s.podspec i)) (s.library i).folder s.podfile []
    rw [List.append_nil] at hpod
    exact hpod

/-- The pods whose lines stand behind the line of the target are there, and no other one. -/
theorem hasPod_lines_iff {u m v : List Char} (h : s.target.OnlyPlace u m v)
    (hbase : hasPod (podName (s.podspec k)) (u ++ m ++ v) = false) (is : List ι) :
    hasPod (podName (s.podspec k)) (u ++ m ++ (is.flatMap s.line ++ v)) = true ↔ k ∈ is := by
  have hpod : '\n' ∉ (podName (s.podspec k)).toList := (s.isPlainText_pod k).notMem (.inr rfl)
  have hcloses : ClosesLine (u ++ m) := by
    obtain ⟨y, hy, ⟨l, g, rfl, hg⟩, -⟩ := Anchor.takes_targetLine _ _ _ _ h.first.here
    obtain rfl : m = l ++ 'o' :: g := List.append_cancel_right hy
    refine ⟨u ++ l, 'o', g, by rw [List.append_assoc], by decide, by decide, hg, ?_⟩
    obtain ⟨⟨c, hc, rfl⟩, -⟩ := h.piece
    rw [List.getLast?_append] at hc
    cases g with
    | nil => exact absurd hc (by simp)
    | cons d g => simpa using hc
  rw [hasPod_append hcloses hpod, hasPod_flatMap (fun _ => closesLine_line) hpod]
  have hnone : ¬(hasPod (podName (s.podspec k)) (u ++ m) = true ∨ hasPod (podName (s.podspec k)) v = true) := by
    rw [← hasPod_append hcloses hpod, hbase]
    simp
  constructor
  · rintro (hpre | ⟨i, hi, hline⟩ | hpost)
    · exact absurd (.inl hpre) hnone
    · rw [← hasPod_line_iff.mp hline]
      exact hi
    · exact absurd (.inr hpost) hnone
  · intro hk
    exact .inr (.inl ⟨k, hk, hasPod_line_iff.mpr rfl⟩)

/-! ## The Podfile in a workspace -/

/-- The Podfile has one line for the target of the app, and neither has the pods nor holds the lines of the
libraries. -/
structure IsBase (s : PodSelection ι) (w : Workspace) (base : List Char) : Prop where
  here : w.tree.here = s.here
  reads : w.tree.readText s.podfile = .ok (String.ofList base)
  places : (s.target.places base).length = 1
  pods : ∀ i, hasPod (podName (s.podspec i)) base = false
  fresh : ∀ i, occursIn (s.line i) base = false

/-- The Podfile with the lines of libraries behind the line of the target. -/
def text (s : PodSelection ι) (base : List Char) (is : List ι) : List Char := s.target.behind (is.flatMap s.line) base

/-- The workspace is the one from before with a text in the Podfile, and nothing else in it has changed. -/
def Holds (s : PodSelection ι) (w₀ : Workspace) (content : List Char) (w : Workspace) : Prop :=
  ∃ names old, w₀.tree.HasFile s.podfile names old ∧
    w = { w₀ with tree := w₀.tree.overwrite names (String.ofList content).toUTF8 }

variable {w₀ w w' : Workspace} {base content : List Char} {is : List ι} {b : Bool}

theorem Holds.hasFile (h : s.Holds w₀ content w) :
    ∃ names, w.tree.HasFile s.podfile names (String.ofList content).toUTF8 ∧
      ∀ changed, s.Holds w₀ changed { w with tree := w.tree.overwrite names (String.ofList changed).toUTF8 } := by
  obtain ⟨names, old, hfile, rfl⟩ := h
  refine ⟨names, hfile.overwrite _, fun changed => ⟨names, old, hfile, ?_⟩⟩
  simp only [Tree.overwrite_overwrite hfile.node]

theorem Holds.readText (h : s.Holds w₀ content w) : w.tree.readText s.podfile = .ok (String.ofList content) := by
  obtain ⟨names, hfile, -⟩ := h.hasFile
  exact Tree.readText_of_hasFile hfile

theorem Holds.here (h : s.Holds w₀ content w) : w.tree.here = w₀.tree.here := by
  obtain ⟨names, old, -, rfl⟩ := h
  rfl

theorem exists_onlyPlace (h : s.IsBase w base) : ∃ u m v, base = u ++ m ++ v ∧ s.target.OnlyPlace u m v := by
  have hne : ∀ x, s.target.Piece x → x ≠ [] := fun x hx => Lines.ne_nil hx
  obtain ⟨u, m, v, hbase, hplace⟩ := Anchor.exists_onlyPlace hne h.places
  exact ⟨u, m, v, by rw [hbase, List.append_assoc], hplace⟩

theorem holds_of_isBase (h : s.IsBase w base) : s.Holds w (s.text base []) w := by
  obtain ⟨u, m, v, rfl, hplace⟩ := exists_onlyPlace h
  obtain ⟨names, hfile⟩ := Tree.hasFile_of_readText h.reads
  have hnil : s.text (u ++ m ++ v) [] = u ++ m ++ v := by
    rw [text, List.append_assoc, hplace.behind]
    rfl
  refine ⟨names, _, hfile, ?_⟩
  rw [hnil, Tree.overwrite_same hfile.node]

/-! ## One call -/

theorem run_register (hhere : w.tree.here = s.here)
    (h : ((s.insertion i).applyTo s.podfile).run w = (.ok b, w')) :
    (register (s.name i) (s.library i) s.app).run w = (.ok [], w') := by
  rw [insertion] at h
  rw [register, s.route_eq i]
  simp only
  rw [Attempt.run_bind_ok (Attempt.run_get w), hhere, Attempt.run_bind_ok (Attempt.run_outcome h)]
  rfl

theorem run_unregister (hhere : w.tree.here = s.here) (others : List Library)
    (h : ((s.insertion i).revertIn s.podfile).run w = (.ok b, w')) :
    (unregister (s.name i) (s.library i) s.app others).run w = (.ok [], w') := by
  rw [insertion] at h
  rw [unregister, s.route_eq i]
  simp only
  rw [Attempt.run_bind_ok (Attempt.run_get w), hhere, Attempt.run_bind_ok h]
  rfl

/-! ## Calls -/

/-- A library is linked or unlinked, while there are others. -/
inductive Call (ι : Type) where
  | link (i : ι)
  | unlink (i : ι) (others : List Library)

def Call.run (s : PodSelection ι) : Call ι → Step (List String)
  | link i => register (s.name i) (s.library i) s.app
  | unlink i others => unregister (s.name i) (s.library i) s.app others

section Runs

variable [DecidableEq ι]

/-- The libraries that are linked after a call, the last one first. -/
def Call.apply (is : List ι) : Call ι → List ι
  | link i => is.insert i
  | unlink i _ => is.erase i

def linkedAfter (calls : List (Call ι)) : List ι := calls.foldl Call.apply []

theorem Call.nodup_apply (hnodup : is.Nodup) (call : Call ι) : (call.apply is).Nodup := by
  cases call with
  | link i => exact hnodup.insert
  | unlink i others => exact hnodup.erase i

theorem exists_stack (h : s.IsBase w base) : ∃ pre post, Stack s.target s.line pre post ∧
    ∀ is, s.text base is = pre ++ (is.flatMap s.line ++ post) := by
  obtain ⟨u, m, v, rfl, hplace⟩ := exists_onlyPlace h
  have hstack := stack_lines hplace h.fresh
  exact ⟨u ++ m, v, hstack, hstack.behind⟩

/-- A pod that is linked gets its line on top, unless the line is there. -/
theorem run_link (h : s.IsBase w₀ base) (hw : s.Holds w₀ (s.text base is) w) (i : ι) :
    ∃ w', (register (s.name i) (s.library i) s.app).run w = (.ok [], w') ∧
      s.Holds w₀ (s.text base (is.insert i)) w' := by
  obtain ⟨pre, post, hstack, htext⟩ := exists_stack h
  obtain ⟨names, hfile, hholds⟩ := hw.hasFile
  have hhere : w.tree.here = s.here := by rw [hw.here, h.here]
  have hrun := run_applyTo_eq (s.nonempty i) hfile
  rw [String.toList_ofList, htext] at hrun
  by_cases hi : i ∈ is
  · rw [hstack.apply_of_mem rfl (s.nonempty i) hi] at hrun
    rw [List.insert_of_mem hi]
    exact ⟨w, run_register hhere hrun, hw⟩
  · rw [hstack.apply_of_notMem (s.isBehind i) rfl (s.nonempty i) hi] at hrun
    refine ⟨_, run_register hhere hrun, ?_⟩
    rw [List.insert_of_not_mem hi, htext]
    exact hholds _

/-- A pod that is unlinked loses its line, wherever the line is. -/
theorem run_unlink (h : s.IsBase w₀ base) (hw : s.Holds w₀ (s.text base is) w) (hnodup : is.Nodup) (i : ι)
    (others : List Library) :
    ∃ w', (unregister (s.name i) (s.library i) s.app others).run w = (.ok [], w') ∧
      s.Holds w₀ (s.text base (is.erase i)) w' := by
  obtain ⟨pre, post, hstack, htext⟩ := exists_stack h
  obtain ⟨names, hfile, hholds⟩ := hw.hasFile
  have hhere : w.tree.here = s.here := by rw [hw.here, h.here]
  by_cases hi : i ∈ is
  · have hrevert := hstack.revert_of_mem (s.isBehind i) rfl (s.nonempty i) hi hnodup
    have hrun := run_revertIn_of_removed (s.nonempty i) hfile (by rw [String.toList_ofList, htext, hrevert])
    refine ⟨_, run_unregister hhere others hrun, ?_⟩
    rw [htext]
    exact hholds _
  · have hidle : (s.insertion i).IsIdle s.podfile w.tree := by
      right
      rw [Insertion.isApplied, s.nonempty i, hw.readText]
      simp only [Bool.false_eq_true, if_false, String.toList_ofList]
      congr 1
      rw [Bool.eq_false_iff, Ne, htext, hstack.isIn_iff rfl (s.nonempty i)]
      exact hi
    rw [List.erase_of_not_mem hi]
    exact ⟨w, run_unregister hhere others (run_revertIn_of_isIdle hidle), hw⟩

theorem run_isInstalled (h : s.IsBase w₀ base) (hw : s.Holds w₀ (s.text base is) w) (i : ι) :
    (isInstalled s.app (s.library i)).run w = (.ok (decide (i ∈ is)), w) := by
  obtain ⟨u, m, v, rfl, hplace⟩ := exists_onlyPlace h
  have htext : s.text (u ++ m ++ v) is = u ++ m ++ (is.flatMap s.line ++ v) := by
    rw [text, List.append_assoc, hplace.behind, List.append_assoc]
  rw [run_isInstalled_of_podLine (s.route_eq i) hw.readText, String.toList_ofList, htext]
  congr 2
  rw [Bool.eq_iff_iff, hasPod_lines_iff hplace (h.pods i), decide_eq_true_iff]

/-! ## Runs -/

/-- One call leads from a Podfile with the lines of the linked libraries to one with the lines of the linked
libraries. -/
theorem run_call (h : s.IsBase w₀ base) (hw : s.Holds w₀ (s.text base is) w) (hnodup : is.Nodup) (call : Call ι) :
    ∃ w', (call.run s).run w = (.ok [], w') ∧ s.Holds w₀ (s.text base (call.apply is)) w' := by
  cases call with
  | link i => exact run_link h hw i
  | unlink i others => exact run_unlink h hw hnodup i others

theorem run_calls_from (h : s.IsBase w₀ base) (calls : List (Call ι)) (hw : s.Holds w₀ (s.text base is) w)
    (hnodup : is.Nodup) :
    ∃ w', (calls.mapM (Call.run s)).run w = (.ok (calls.map fun _ => []), w') ∧
      s.Holds w₀ (s.text base (calls.foldl Call.apply is)) w' := by
  induction calls generalizing is w with
  | nil => exact ⟨w, rfl, hw⟩
  | cons call calls ih =>
    obtain ⟨w₁, hrun, hw₁⟩ := run_call h hw hnodup call
    obtain ⟨w₂, hrest, hw₂⟩ := ih hw₁ (Call.nodup_apply hnodup call)
    refine ⟨w₂, ?_, hw₂⟩
    rw [List.mapM_cons, Attempt.run_bind_ok hrun, Attempt.run_bind_ok hrest]
    rfl

/-- Pods are linked and unlinked in any order, and nothing is ever left to do by hand.  Behind every run the Podfile is
the one from the beginning with the lines of the pods that are linked right behind the line of the target, the last one
first; nothing else in the workspace has changed; and exactly these pods are recognised. -/
theorem run_podCalls (h : s.IsBase w base) (calls : List (Call ι)) :
    ∃ w', (calls.mapM (Call.run s)).run w = (.ok (calls.map fun _ => []), w') ∧
      s.Holds w (s.target.behind ((linkedAfter calls).flatMap s.line) base) w' ∧
      ∀ i, (isInstalled s.app (s.library i)).run w' = (.ok (decide (i ∈ linkedAfter calls)), w') := by
  obtain ⟨w', hrun, hw'⟩ := run_calls_from h calls (holds_of_isBase h) List.nodup_nil
  exact ⟨w', hrun, hw', fun i => run_isInstalled h hw' i⟩

end Runs

/-! ## Two pods in a target -/

/-- Two libraries, of which one has a pod whose name starts like the other one. -/
def sample : PodSelection Bool where
  app := plainApp (some ⟨"", ["ios", "Podfile"]⟩)
  here := ⟨"/", []⟩
  podfile := ⟨"", ["ios", "Podfile"]⟩
  name i := if i then "foo-bar" else "foo"
  library i := plainLibrary (.pod ⟨"", ["foo", if i then "FooBar.podspec" else "Foo.podspec"]⟩)
  podspec i := ⟨"", ["foo", if i then "FooBar.podspec" else "Foo.podspec"]⟩
  route_eq _ := rfl
  pod_injective := by intro i k; cases i <;> cases k <;> decide +kernel
  pod_plain := by decide +kernel
  way_plain := by decide +kernel

theorem isBase_sample : sample.IsBase (plainWorkspace "target 'App' do\nend\n") "target 'App' do\nend\n".toList := by
  have hreads : (plainWorkspace "target 'App' do\nend\n").tree.readText sample.podfile =
      .ok "target 'App' do\nend\n" :=
    Tree.readText_of_hasFile (show Tree.HasFile _ _ ["ios", "Podfile"] _ from ⟨rfl, rfl⟩)
  have hfresh : ∀ i, occursIn (sample.line i) "target 'App' do\nend\n".toList = false := by decide +kernel
  exact ⟨rfl, by rw [hreads, String.ofList_toList], by decide +kernel, by decide +kernel, hfresh⟩

theorem run_podCalls_sample :
    ∃ w', ([.link false, .link true, .link false, .unlink false []].mapM (Call.run sample)).run
        (plainWorkspace "target 'App' do\nend\n") = (.ok [[], [], [], []], w') ∧
      w'.tree.readText sample.podfile = .ok "target 'App' do\n  pod 'FooBar', :path => '../foo'\nend\n" ∧
      (isInstalled sample.app (sample.library true)).run w' = (.ok true, w') ∧
      (isInstalled sample.app (sample.library false)).run w' = (.ok false, w') := by
  obtain ⟨w', hrun, hholds, hinstalled⟩ :=
    run_podCalls isBase_sample [.link false, .link true, .link false, .unlink false []]
  have hlinked : linkedAfter [Call.link false, .link true, .link false, .unlink false []] = [true] := by decide
  rw [hlinked] at hholds hinstalled
  have htext : sample.target.behind ([true].flatMap sample.line) "target 'App' do\nend\n".toList =
      "target 'App' do\n  pod 'FooBar', :path => '../foo'\nend\n".toList := by decide +kernel
  refine ⟨w', hrun, ?_, hinstalled true, hinstalled false⟩
  rw [hholds.readText, htext, String.ofList_toList]

end PodSelection
end Ios
end ModuleLink
