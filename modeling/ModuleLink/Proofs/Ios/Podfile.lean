import Mathlib
import ModuleLink.Ios.Registration
import ModuleLink.Proofs.Patch.Files
import ModuleLink.Proofs.Patch.Stack

/-!
Libraries that are linked by a line in the Podfile.  The line is looked for as a text when it is put in and taken out,
and by its shape, at the start of a line, when the library is recognised.
-/

namespace ModuleLink
namespace Ios

open Patch Insertion Text Workspace

variable {pod : String} {cs x y : List Char}

/-! ## Lines for a pod -/

/-- The text ends where a line may start. -/
def EndsLine (x : List Char) : Prop := x = [] ∨ x.getLast? = some '\n'

theorem podAt_nil (pod : List Char) : podAt pod [] = false := rfl

theorem hasPodFrom_iff {pod : List Char} {fresh : Bool} :
    hasPodFrom pod fresh cs = true ↔
      (fresh = true ∧ podAt pod cs = true) ∨ ∃ x y, cs = x ++ y ∧ x.getLast? = some '\n' ∧ podAt pod y = true := by
  induction cs generalizing fresh with
  | nil =>
    rw [hasPodFrom]
    simp only [podAt_nil, Bool.false_eq_true, and_false, false_or, false_iff]
    rintro ⟨x, y, hxy, hx, -⟩
    rw [(List.append_eq_nil_iff.mp hxy.symm).1] at hx
    contradiction
  | cons c cs ih =>
    rw [hasPodFrom, Bool.or_eq_true, Bool.and_eq_true, ih]
    refine or_congr_right ⟨?_, ?_⟩
    · rintro (⟨hc, hpod⟩ | ⟨x, y, rfl, hx, hpod⟩)
      · exact ⟨[c], cs, rfl, by simpa using hc, hpod⟩
      · refine ⟨c :: x, y, rfl, ?_, hpod⟩
        rw [List.getLast?_cons, hx]
        rfl
    · rintro ⟨x, y, hxy, hx, hpod⟩
      rcases List.append_eq_cons_iff.mp hxy.symm with ⟨rfl, -⟩ | ⟨x', rfl, hy⟩
      · simp at hx
      · cases x' with
        | nil =>
          left
          rw [List.nil_append] at hy
          rw [hy]
          exact ⟨by simpa using hx, hpod⟩
        | cons d x' =>
          right
          exact ⟨d :: x', y, hy, by simpa using hx, hpod⟩

/-- The pod is part of a target exactly if a line for it stands somewhere at the start of a line. -/
theorem hasPod_iff : hasPod pod cs = true ↔ ∃ x y, cs = x ++ y ∧ EndsLine x ∧ podAt pod.toList y = true := by
  rw [hasPod, hasPodFrom_iff]
  constructor
  · rintro (⟨-, hpod⟩ | ⟨x, y, rfl, hx, hpod⟩)
    · exact ⟨[], cs, rfl, .inl rfl, hpod⟩
    · exact ⟨x, y, rfl, .inr hx, hpod⟩
  · rintro ⟨x, y, rfl, rfl | hx, hpod⟩
    · exact .inl ⟨rfl, hpod⟩
    · exact .inr ⟨x, y, rfl, hx, hpod⟩

/-! ## The texts that are looked for -/

/-- The texts that make a pod part of a target, from the start of a line on. -/
inductive IsPodText (pod : List Char) : List Char → Prop
  | intro {bs gs : List Char} {q q' : Char} : (∀ c ∈ bs, isBlank c = true) → gs ≠ [] → (∀ c ∈ gs, isBlank c = true) →
      IsQuote q → IsQuote q' → IsPodText pod (bs ++ ("pod".toList ++ (gs ++ q :: (pod ++ [q']))))

theorem isBlank_of_isQuote {q : Char} (hq : IsQuote q) : isBlank q = false := by
  rcases hq with rfl | rfl <;> decide

theorem blanks?_eq_some_iff {r : List Char} (hr : r.head?.any isBlank = false) :
    blanks? cs = some r ↔ ∃ gs, gs ≠ [] ∧ (∀ c ∈ gs, isBlank c = true) ∧ cs = gs ++ r := by
  have hdrop : r.dropWhile isBlank = r := by
    cases r with
    | nil => rfl
    | cons c r => exact List.dropWhile_cons_of_neg (by simpa using hr)
  constructor
  · intro h
    obtain ⟨rest, hrest, rfl⟩ := Option.map_eq_some_iff.mp h
    cases cs with
    | nil => contradiction
    | cons c cs =>
      by_cases hc : isBlank c = true
      · obtain rfl : cs = rest := by simpa [blank?, hc] using hrest
        refine ⟨c :: cs.takeWhile isBlank, by simp, ?_, ?_⟩
        · rw [List.forall_mem_cons]
          exact ⟨hc, fun d hd => List.all_eq_true.mp List.all_takeWhile d hd⟩
        · rw [List.cons_append, List.takeWhile_append_dropWhile]
      · simp [blank?, hc] at hrest
  · rintro ⟨gs, hne, hgs, rfl⟩
    obtain ⟨c, gs, rfl⟩ := List.exists_cons_of_ne_nil hne
    rw [List.forall_mem_cons] at hgs
    rw [blanks?, List.cons_append, blank?, if_pos hgs.1, Option.map_some, List.dropWhile_append_of_pos hgs.2, hdrop]

theorem podAt_iff {pod : List Char} : podAt pod cs = true ↔ ∃ x, IsPodText pod x ∧ x <+: cs := by
  have hword : "pod".toList = 'p' :: "od".toList := by decide
  rw [podAt]
  constructor
  · intro h
    split at h
    next rest hrest =>
      obtain ⟨s, hs, hblanks⟩ := Option.bind_eq_some_iff.mp hrest
      obtain ⟨r, hquoted⟩ := Option.isSome_iff_exists.mp h
      obtain ⟨q, q', hq, hq', rfl⟩ := quoted?_eq_some_iff.mp hquoted
      obtain ⟨gs, hne, hgs, rfl⟩ := (blanks?_eq_some_iff (by simpa using isBlank_of_isQuote hq)).mp hblanks
      have hbs : ∀ c ∈ cs.takeWhile isBlank, isBlank c = true := fun c hc =>
        List.all_eq_true.mp List.all_takeWhile c hc
      refine ⟨_, .intro hbs hne hgs hq hq', r, ?_⟩
      have hsplit := List.takeWhile_append_dropWhile (p := isBlank) (l := cs)
      rw [after?_eq_some_iff.mp hs] at hsplit
      simpa only [List.append_assoc, List.cons_append, List.nil_append] using hsplit
    · contradiction
  · rintro ⟨_, @⟨bs, gs, q, q', hbs, hne, hgs, hq, hq'⟩, r, rfl⟩
    have hquoted : quoted? pod (q :: (pod ++ q' :: r)) = some r := quoted?_eq_some_iff.mpr ⟨q, q', hq, hq', rfl⟩
    have hblanks : blanks? (gs ++ q :: (pod ++ q' :: r)) = some (q :: (pod ++ q' :: r)) :=
      (blanks?_eq_some_iff (by simpa using isBlank_of_isQuote hq)).mpr ⟨gs, hne, hgs, rfl⟩
    have hdrop : (bs ++ ("pod".toList ++ (gs ++ q :: (pod ++ q' :: r)))).dropWhile isBlank =
        "pod".toList ++ (gs ++ q :: (pod ++ q' :: r)) := by
      rw [List.dropWhile_append_of_pos hbs, hword, List.cons_append, List.dropWhile_cons_of_neg (by decide)]
    simp only [List.append_assoc, List.cons_append, List.nil_append]
    rw [hdrop, after?_append, Option.bind_some, hblanks]
    simp only [hquoted]
    rfl

/-- Where a line ends inside the text for a pod, only blank characters came before, or the last other one was the end
of the word. -/
theorem IsPodText.cut {pod x z w : List Char} (hx : IsPodText pod x) (hpod : '\n' ∉ pod) (h : x = z ++ w)
    (hz : z.getLast? = some '\n') :
    (∀ c ∈ z, isBlank c = true) ∨ ∃ y g, z = y ++ 'd' :: g ∧ ∀ c ∈ g, isBlank c = true := by
  obtain @⟨bs, gs, q, q', hbs, -, hgs, hq, hq'⟩ := hx
  have hword : "pod".toList = ['p', 'o', 'd'] := by decide
  have hquote {c : Char} (hc : IsQuote c) : c ≠ '\n' := by
    rintro rfl
    exact absurd hc (by simp [IsQuote])
  -- The text is gone through piece by piece.  A piece without a line end is not where the cut is.
  rcases List.append_eq_append_iff.mp h with ⟨t, rfl, ht⟩ | ⟨t, ht, -⟩
  · rcases List.append_eq_append_iff.mp ht with ⟨t₂, rfl, ht₂⟩ | ⟨t₂, ht₂, -⟩
    · rcases List.append_eq_append_iff.mp ht₂ with ⟨t₃, rfl, ht₃⟩ | ⟨t₃, rfl, -⟩
      · cases t₃ with
        | nil =>
          refine .inr ⟨bs ++ ['p', 'o'], gs, ?_, hgs⟩
          simp [hword]
        | cons c t₃ =>
          have hmem : '\n' ∈ q :: (pod ++ [q']) := by
            rw [ht₃]
            refine List.mem_append_left _ ?_
            have hlast : ((bs ++ ("pod".toList ++ gs)) ++ c :: t₃).getLast? = some '\n' := by
              simpa only [List.append_assoc] using hz
            rw [List.getLast?_append_of_ne_nil _ (by simp)] at hlast
            exact List.mem_of_getLast? hlast
          rw [List.mem_cons, List.mem_append, List.mem_singleton] at hmem
          rcases hmem with hmem | hmem | hmem
          · exact absurd hmem.symm (hquote hq)
          · exact absurd hmem hpod
          · exact absurd hmem.symm (hquote hq')
      · refine .inr ⟨bs ++ ['p', 'o'], t₂, ?_, fun c hc => hgs c (List.mem_append_left _ hc)⟩
        simp [hword]
    · by_cases ht_nil : t = []
      · refine .inl ?_
        rw [ht_nil, List.append_nil]
        exact hbs
      · rw [List.getLast?_append_of_ne_nil _ ht_nil] at hz
        have hmem : '\n' ∈ "pod".toList := by
          rw [ht₂]
          exact List.mem_append_left _ (List.mem_of_getLast? hz)
        exact absurd hmem (by decide)
  · exact .inl fun c hc => hbs c (by rw [ht]; exact List.mem_append_left _ hc)

/-! ## Texts one after another -/

/-- The text ends in a line end, and the last character before it that is not blank does not end the word that a line
for a pod starts with.  So no such line goes on behind the text. -/
def ClosesLine (a : List Char) : Prop :=
  ∃ l c g, a = l ++ c :: g ∧ isBlank c = false ∧ c ≠ 'd' ∧ (∀ d ∈ g, isBlank d = true) ∧ g.getLast? = some '\n'

/-- The last character that is not blank is the same however a text is taken apart. -/
theorem eq_of_append_blank {c d : Char} {u v g h : List Char} (e : u ++ c :: g = v ++ d :: h) (hc : isBlank c = false)
    (hd : isBlank d = false) (hg : ∀ b ∈ g, isBlank b = true) (hh : ∀ b ∈ h, isBlank b = true) : c = d := by
  have hlast {b b' : Char} {s t r : List Char} (hb : isBlank b' = false) (ht : ∀ k ∈ t, isBlank k = true)
      (e : b :: t = s ++ b' :: r) : b = b' := by
    cases s with
    | nil => exact (List.cons.inj e).1
    | cons k s =>
      have hmem : b' ∈ t := by
        rw [(List.cons.inj e).2]
        simp
      rw [ht b' hmem] at hb
      contradiction
  rcases List.append_eq_append_iff.mp e with ⟨z, -, hz⟩ | ⟨z, -, hz⟩
  · exact hlast hd hg hz
  · exact (hlast hc hh hz).symm

theorem ClosesLine.getLast? {a : List Char} (ha : ClosesLine a) : a.getLast? = some '\n' := by
  obtain ⟨l, c, g, rfl, -, -, -, hg⟩ := ha
  rw [List.getLast?_append, List.getLast?_cons, hg]
  rfl

theorem podAt_of_blank {pod g : List Char} (hg : ∀ c ∈ g, isBlank c = true) (cs : List Char) :
    podAt pod (g ++ cs) = podAt pod cs := by
  rw [podAt, podAt, List.dropWhile_append_of_pos hg]

theorem podAt_append {pod : List Char} (h : podAt pod cs = true) (t : List Char) : podAt pod (cs ++ t) = true := by
  obtain ⟨x, hx, hprefix⟩ := podAt_iff.mp h
  exact podAt_iff.mpr ⟨x, hx, hprefix.trans (List.prefix_append cs t)⟩

/-- Behind a line end a pod is looked for in what comes before and in what follows. -/
theorem hasPod_append {a : List Char} (ha : ClosesLine a) (hpod : '\n' ∉ pod.toList) (t : List Char) :
    hasPod pod (a ++ t) = true ↔ hasPod pod a = true ∨ hasPod pod t = true := by
  simp only [hasPod_iff]
  constructor
  · rintro ⟨x, y, hxy, hx, hy⟩
    rcases List.append_eq_append_iff.mp hxy with ⟨s, rfl, rfl⟩ | ⟨s, rfl, rfl⟩
    · refine .inr ⟨s, y, rfl, ?_, hy⟩
      by_cases hs : s = []
      · exact .inl hs
      · right
        rw [← List.getLast?_append_of_ne_nil a hs]
        exact hx.resolve_left (by simp [hs])
    · by_cases hblank : ∀ c ∈ s, isBlank c = true
      · rw [podAt_of_blank hblank] at hy
        exact .inr ⟨[], t, rfl, .inl rfl, hy⟩
      · -- The text for the pod starts before the line end, so it ends before it.
        obtain ⟨e, he, hprefix⟩ := podAt_iff.mp hy
        refine .inl ⟨x, s, rfl, hx, podAt_iff.mpr ⟨e, he, ?_⟩⟩
        obtain ⟨r, hr⟩ := hprefix
        rcases List.append_eq_append_iff.mp hr with ⟨z, hz, -⟩ | ⟨w, rfl, -⟩
        · exact ⟨z, hz.symm⟩
        · have hs : s ≠ [] := by
            rintro rfl
            exact hblank (by simp)
          have hlast : s.getLast? = some '\n' := by
            rw [← List.getLast?_append_of_ne_nil x hs, ha.getLast?]
          rcases he.cut hpod rfl hlast with hall | ⟨y, g, rfl, hg⟩
          · exact absurd hall hblank
          · obtain ⟨l, c, g', hsplit, hc, hne, hg', -⟩ := ha
            rw [← List.append_assoc] at hsplit
            exact absurd (eq_of_append_blank hsplit (by decide) hc hg hg').symm hne
  · rintro (⟨x, y, rfl, hx, hy⟩ | ⟨x, y, rfl, hx, hy⟩)
    · exact ⟨x, y ++ t, by rw [List.append_assoc], hx, podAt_append hy t⟩
    · refine ⟨a ++ x, y, by rw [List.append_assoc], .inr ?_, hy⟩
      rcases hx with rfl | hx
      · rw [List.append_nil, ha.getLast?]
      · rw [List.getLast?_append, hx]
        rfl

/-- Before any text, lines for pods are looked through one by one. -/
theorem hasPod_flatMap {ι : Type} {line : ι → List Char} (hline : ∀ i, ClosesLine (line i)) (hpod : '\n' ∉ pod.toList)
    (is : List ι) (t : List Char) :
    hasPod pod (is.flatMap line ++ t) = true ↔ (∃ i ∈ is, hasPod pod (line i) = true) ∨ hasPod pod t = true := by
  induction is with
  | nil => simp
  | cons i is ih =>
    rw [List.flatMap_cons, List.append_assoc, hasPod_append (hline i) hpod, ih, List.exists_mem_cons_iff, or_assoc]

variable {here folder podfile podspec : Path} {target name : String} {app : App} {library : Library} {w w' : Workspace}

/-- The line that is put in, with its quotes. -/
theorem chars_podInsertion (here : Path) (target pod : String) (folder podfile : Path) :
    (podInsertion here target pod folder podfile).chars =
      "  pod ".toList ++ '\'' :: (pod.toList ++ '\'' :: (", :path => ".toList ++
        '\'' :: ((Path.relative here folder podfile.parent).toString.toList ++ ['\'', '\n']))) := by
  have hstart : "  pod '".toList = "  pod ".toList ++ ['\''] := by decide
  have hmiddle : "', :path => '".toList = '\'' :: (", :path => ".toList ++ ['\'']) := by decide
  have hend : "'\n".toList = ['\'', '\n'] := by decide
  simp only [podInsertion, Insertion.chars, String.toList_append, hstart, hmiddle, hend, List.append_assoc,
    List.cons_append, List.nil_append]

/-- The line that is put in is a line for the pod, whatever follows it. -/
theorem podAt_podInsertion (here : Path) (target pod : String) (folder podfile : Path) (rest : List Char) :
    podAt pod.toList ((podInsertion here target pod folder podfile).chars ++ rest) = true := by
  have hstart : "  pod ".toList = [' ', ' '] ++ ("pod".toList ++ [' ']) := by decide
  refine podAt_iff.mpr ⟨_, @IsPodText.intro _ [' ', ' '] [' '] '\'' '\'' (by simp [isBlank]) (by simp)
    (by simp [isBlank]) (.inl rfl) (.inl rfl), ", :path => ".toList ++
      '\'' :: ((Path.relative here folder podfile.parent).toString.toList ++ '\'' :: '\n' :: rest), ?_⟩
  rw [chars_podInsertion, hstart]
  simp only [List.append_assoc, List.cons_append, List.nil_append]

/-- The place behind the line of a target is the start of a line. -/
theorem endsLine_of_places {s e : Nat} (h : (Anchor.targetLine target).places cs = [(s, e)]) :
    EndsLine (cs.take e) := by
  obtain ⟨u, m, v, rfl, rfl, rfl, hfirst⟩ := Anchor.placesFrom_eq_cons _ h
  obtain ⟨m', hm, ⟨⟨c, hc, rfl⟩, -⟩, -⟩ := Anchor.takes_rest? _ _ _ _ hfirst.here
  obtain rfl : m = m' := List.append_cancel_right hm
  have hlength : 0 + u.length + m.length = (u ++ m).length := by rw [List.length_append, Nat.zero_add]
  right
  rw [hlength, ← List.append_assoc, List.take_left, List.getLast?_append, hc]
  rfl

/-- A Podfile that the line was just put into has the pod. -/
theorem hasPod_of_made {changed : List Char} (h : (podInsertion here target pod folder podfile).Made cs changed) :
    hasPod pod changed = true := by
  obtain ⟨a, s, e, hp, hplaces, rfl⟩ := h.split
  obtain rfl : a = .targetLine target := by simpa [podInsertion] using hp.anchor.symm
  rw [Insertion.insertAt, List.append_assoc]
  exact hasPod_iff.mpr ⟨_, _, rfl, endsLine_of_places hplaces, podAt_podInsertion _ _ _ _ _ _⟩

/-! ## Linking and unlinking -/

theorem podInsertion_nonempty (here : Path) (target pod : String) (folder podfile : Path) :
    (podInsertion here target pod folder podfile).isEmpty = false := by
  simp [Insertion.isEmpty, podInsertion]

theorem isBehind_podInsertionFor (here : Path) (app : App) (library : Library) (podfile podspec : Path) :
    (podInsertionFor here app library podfile podspec).IsBehind (.targetLine app.target) := ⟨rfl, rfl⟩

theorem run_isInstalled_of_podLine {content : String} (hroute : route app library = .podLine podfile podspec)
    (hread : w.tree.readText podfile = .ok content) :
    (isInstalled app library).run w = (.ok (hasPod (podName podspec) content.toList), w) := by
  rw [isInstalled, hroute]
  exact Attempt.run_bind_ok (by rw [run_readText, hread])

/-- Only a Podfile that can be read is asked for a pod. -/
theorem exists_readText_of_isInstalled {b : Bool} (hroute : route app library = .podLine podfile podspec)
    (h : (isInstalled app library).run w = (.ok b, w')) :
    ∃ content, w.tree.readText podfile = .ok content ∧ hasPod (podName podspec) content.toList = b := by
  rw [isInstalled, hroute] at h
  obtain ⟨content, _, hlook, h⟩ := Attempt.run_bind_eq_ok h
  rw [run_readText, Prod.mk.injEq] at hlook
  obtain ⟨hread, rfl⟩ := hlook
  exact ⟨content, hread, (Attempt.run_pure_eq_ok h).1⟩

theorem run_isInstalled_of_byHand (hroute : route app library = .byHand podspec) :
    (isInstalled app library).run w = (.ok false, w) := by
  rw [isInstalled, hroute]
  rfl

/-- A pod without a Podfile is left to be linked by hand. -/
theorem left_ne_nil_of_byHand {left : List String} (hroute : route app library = .byHand podspec)
    (h : (register name library app).run w = (.ok left, w')) : left ≠ [] := by
  rw [register, hroute] at h
  rw [← (Attempt.run_pure_eq_ok h).1]
  exact List.cons_ne_nil _ _

/-- A pod that the Podfile did not have is there after a library was linked, exactly if the text of its line was not.
Else linking takes the text for the line and changes nothing. -/
theorem isInstalled_of_register_podLine {content : String} (hroute : route app library = .podLine podfile podspec)
    (hread : w.tree.readText podfile = .ok content) (hnot : hasPod (podName podspec) content.toList = false)
    (h : (register name library app).run w = (.ok [], w')) :
    (isInstalled app library).run w' =
      (.ok (!(podInsertionFor w.tree.here app library podfile podspec).isIn content.toList), w') := by
  obtain ⟨names, hfile⟩ := Tree.hasFile_of_readText hread
  have hempty : (podInsertionFor w.tree.here app library podfile podspec).isEmpty = false :=
    podInsertion_nonempty _ _ _ _ _
  have happlyTo := run_applyTo_eq hempty hfile
  rw [register, hroute] at h
  simp only at h
  rw [Attempt.run_bind_ok (Attempt.run_get w)] at h
  rcases apply_cases (isBehind_podInsertionFor w.tree.here app library podfile podspec) podfile.toString
    content.toList with
    ⟨happly, hthere⟩ | ⟨changed, happly, hmade⟩ | ⟨f, happly, hinstruction, -⟩
  · rw [happly] at happlyTo
    rw [Attempt.run_bind_ok (Attempt.run_outcome happlyTo)] at h
    obtain ⟨-, rfl⟩ := Attempt.run_pure_eq_ok h
    rw [run_isInstalled_of_podLine hroute hread, hnot, hthere.resolve_left (by rw [hempty]; simp)]
    rfl
  · rw [happly] at happlyTo
    rw [Attempt.run_bind_ok (Attempt.run_outcome happlyTo)] at h
    obtain ⟨-, rfl⟩ := Attempt.run_pure_eq_ok h
    rw [run_isInstalled_of_podLine hroute (Tree.readText_of_hasFile (hfile.overwrite _)), String.toList_ofList,
      hasPod_of_made hmade, hmade.fresh]
    rfl
  · obtain ⟨instruction, hsome⟩ := Option.isSome_iff_exists.mp hinstruction
    rw [happly] at happlyTo
    rw [Attempt.run_bind_ok (Attempt.run_outcome happlyTo)] at h
    simp only [hsome] at h
    obtain ⟨hleft, -⟩ := Attempt.run_pure_eq_ok h
    exact absurd hleft (by simp)

/-- Where the text of the line stands once, a library is unlinked, and counts as unlinked exactly if nothing else makes
its pod part of a target. -/
theorem isInstalled_of_unregister_podLine (others : List Library)
    (hroute : route app library = .podLine podfile podspec)
    (hread : w.tree.readText podfile =
      .ok (String.ofList (x ++ ((podInsertionFor w.tree.here app library podfile podspec).chars ++ y))))
    (hone : hits (podInsertionFor w.tree.here app library podfile podspec).chars
      (x ++ ((podInsertionFor w.tree.here app library podfile podspec).chars ++ y)) = 1) :
    ∃ w', (unregister name library app others).run w = (.ok [], w') ∧
      (isInstalled app library).run w' = (.ok (hasPod (podName podspec) (x ++ y)), w') := by
  obtain ⟨names, hfile⟩ := Tree.hasFile_of_readText hread
  have hempty : (podInsertionFor w.tree.here app library podfile podspec).isEmpty = false :=
    podInsertion_nonempty _ _ _ _ _
  have hrevert := revert_of_hits (isBehind_podInsertionFor _ _ _ _ _).isPlaced hempty rfl hone
  have hrun := run_revertIn_of_removed hempty hfile (by rw [String.toList_ofList, hrevert])
  refine ⟨{ w with tree := w.tree.overwrite names (String.ofList (x ++ y)).toUTF8 }, ?_, ?_⟩
  · rw [unregister, hroute]
    simp only
    rw [Attempt.run_bind_ok (Attempt.run_get w), Attempt.run_bind_ok hrun]
    rfl
  · rw [run_isInstalled_of_podLine hroute (Tree.readText_of_hasFile (hfile.overwrite _)), String.toList_ofList]

end Ios
end ModuleLink
