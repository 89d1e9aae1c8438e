import Mathlib
import ModuleLink.Ios.Layout
import ModuleLink.Proofs.Path
import ModuleLink.Proofs.Text.Occurrences
import ModuleLink.Proofs.Tree.Walk

/-!
The project that is found in a folder.  It is the least of all the projects that can be meant, and the order in which
the file system lists folders has no say in it.
-/

namespace ModuleLink
namespace Ios

open Text

/-! ## Words without regard to case -/

/-- A small letter that is searched for without regard to case, and a letter that is taken for it. -/
def SameLetter (c d : Char) : Prop := d = c ∨ d = c.toUpper ∨ c = 's' ∧ d = 'ſ'

/-- The word stands somewhere in the text, in letters of any case. -/
def Mentions (text word : String) : Prop :=
  ∃ front piece back, text.toList = front ++ piece ++ back ∧ List.Forall₂ SameLetter word.toList piece

theorem toLower_eq_iff {c d : Char} (hlow : 'a' ≤ c) (hhigh : c ≤ 'z') : d.toLower = c ↔ d = c ∨ d = c.toUpper := by
  have hupper : c.toUpper.val = c.val + ('A'.val - 'a'.val) := by rw [Char.toUpper, dif_pos ⟨hlow, hhigh⟩]
  have hlower : d.toLower.val = if 'A'.val ≤ d.val ∧ d.val ≤ 'Z'.val then d.val + ('a'.val - 'A'.val) else d.val := by
    rw [Char.toLower]
    split <;> rfl
  rw [Char.ext_iff, Char.ext_iff, Char.ext_iff, hupper, hlower]
  rw [Char.le_def] at hlow hhigh
  split <;> simp only [Char.reduceVal, UInt32.le_iff_toNat_le, ← UInt32.toNat_inj, UInt32.toNat_add,
    UInt32.reduceToNat, UInt32.reduceSub] at * <;> omega

theorem foldLetter_eq_iff {c d : Char} (hlow : 'a' ≤ c) (hhigh : c ≤ 'z') : foldLetter d = c ↔ SameLetter c d := by
  rw [foldLetter, SameLetter, ← or_assoc, ← toLower_eq_iff hlow hhigh]
  split
  next h =>
    subst h
    refine ⟨fun h => .inr ⟨h.symm, rfl⟩, fun hsame => ?_⟩
    rcases hsame with hlower | ⟨rfl, -⟩
    · exact absurd (hlower ▸ hhigh) (by decide)
    · rfl
  next h => exact ⟨.inl, fun hsame => hsame.resolve_right fun hlong => h hlong.2⟩

theorem map_foldLetter_eq_iff {word piece : List Char} (hword : ∀ c ∈ word, 'a' ≤ c ∧ c ≤ 'z') :
    piece.map foldLetter = word ↔ List.Forall₂ SameLetter word piece := by
  rw [eq_comm, ← List.forall₂_eq_eq_eq, List.forall₂_map_right_iff]
  induction word generalizing piece with
  | nil => cases piece <;> simp
  | cons c word ih =>
    rw [List.forall_mem_cons] at hword
    cases piece with
    | nil => simp
    | cons d piece =>
      rw [List.forall₂_cons, List.forall₂_cons, ih hword.2, eq_comm, foldLetter_eq_iff hword.1.1 hword.1.2]

theorem isTrial_iff (names : List String) :
    isTrial names = true ↔ ∃ word ∈ trialWords, Mentions (relativeText names) word := by
  have hplain : ∀ word ∈ trialWords, ∀ c ∈ word.toList, 'a' ≤ c ∧ c ≤ 'z' := by simp [trialWords]
  rw [isTrial, List.any_eq_true]
  refine exists_congr fun word => and_congr_right fun hword => ?_
  rw [occursIn_iff, Mentions]
  constructor
  · rintro ⟨a, b, hab⟩
    obtain ⟨l, back, hl, hmap, -⟩ := List.map_eq_append_iff.mp hab
    obtain ⟨front, piece, rfl, -, hpiece⟩ := List.map_eq_append_iff.mp hmap
    exact ⟨front, piece, back, hl, (map_foldLetter_eq_iff (hplain word hword)).mp hpiece⟩
  · rintro ⟨front, piece, back, hl, hpiece⟩
    refine ⟨front.map foldLetter, back.map foldLetter, ?_⟩
    rw [hl, List.map_append, List.map_append, (map_foldLetter_eq_iff (hplain word hword)).mpr hpiece]

/-! ## Projects that can be meant -/

/-- The names lead to a folder below `n` that can be the project to link.  It is called a project, none of the folders
on the way is left out of the search, and it stands where apps have theirs or its path does not speak of a trial. -/
structure IsCandidate (n : Node) (names : List String) : Prop where
  isFolder : ∃ m, n.Leads names m ∧ m.isFolder = true
  isProject : ∃ front stem, names = front ++ [stem ++ ".xcodeproj"]
  searched : ∀ name ∈ names.dropLast, name ∉ unsearched ∧ ¬ (∃ stem, name = stem ++ ".xcodeproj") ∧
    ¬ ∃ stem, name = stem ++ ".xcworkspace"
  wanted : names.dropLast = ["ios"] ∨ ∀ word ∈ trialWords, ¬ Mentions (relativeText names) word

/-- The order of projects.  The ones right in the iOS folder come first, then the text of the path decides. -/
inductive Before (a b : List String) : Prop
  | place (ha : a.dropLast = ["ios"]) (hb : b.dropLast ≠ ["ios"])
  | text (h : a.dropLast = ["ios"] ↔ b.dropLast = ["ios"]) (hlt : relativeText a < relativeText b)

/-- The candidate that comes before all the others. -/
def IsBest (n : Node) (names : List String) : Prop :=
  IsCandidate n names ∧ ∀ other, IsCandidate n other → other = names ∨ Before names other

theorem endsWith_iff_exists_append {ending name : String} :
    endsWith ending.toList name.toList = true ↔ ∃ stem, name = stem ++ ending := by
  rw [endsWith_iff]
  constructor
  · rintro ⟨b, hb⟩
    refine ⟨String.ofList b, String.toList_inj.mp ?_⟩
    rw [hb, String.toList_append, String.toList_ofList]
  · rintro ⟨stem, rfl⟩
    exact ⟨stem.toList, String.toList_append⟩

theorem isSearched_iff {name : String} : isSearched name = true ↔ name ∉ unsearched ∧
    ¬ (∃ stem, name = stem ++ ".xcodeproj") ∧ ¬ ∃ stem, name = stem ++ ".xcworkspace" := by
  rw [isSearched, Bool.and_eq_true, Bool.and_eq_true, Bool.not_eq_true', Bool.not_eq_true', Bool.not_eq_true',
    ← Bool.not_eq_true, ← Bool.not_eq_true, ← Bool.not_eq_true, List.contains_iff_mem, isProjectName, isWorkspaceName,
    endsWith_iff_exists_append, endsWith_iff_exists_append, and_assoc]
  rfl

theorem isStandardPlace_iff {names : List String} : isStandardPlace names = true ↔ names.dropLast = ["ios"] :=
  beq_iff_eq

section

variable {n : Node} {names other : List String}

theorem mem_projectsIn_iff : names ∈ projectsIn n ↔ ∃ front name m, names = front ++ [name] ∧
    n.Leads names m ∧ m.isFolder = true ∧ isProjectName name = true ∧ ∀ s ∈ front, isSearched s = true := by
  simp only [projectsIn, Visit.folderNames, List.mem_flatMap, List.mem_map, List.mem_filter, Node.mem_walk,
    List.nil_append]
  constructor
  · rintro ⟨v, ⟨front, hat, hlead, hfront⟩, name, ⟨⟨⟨_, m⟩, ⟨hentry, hfolder⟩, rfl⟩, hproject⟩, rfl⟩
    rw [hat]
    exact ⟨front, _, m, rfl, hlead.trans (Node.leads_singleton_iff.mpr hentry), hfolder, hproject, hfront⟩
  · rintro ⟨front, name, m, rfl, hlead, hfolder, hproject, hfront⟩
    obtain ⟨c, hc, hm⟩ := Node.leads_append_iff.mp hlead
    cases hm with
    | into entry below =>
      cases below with
      | here => exact ⟨⟨front, _⟩, ⟨front, rfl, hc, hfront⟩, name, ⟨⟨(name, m), ⟨entry, hfolder⟩, rfl⟩, hproject⟩, rfl⟩

/-- The projects that are put in order are the candidates. -/
theorem mem_filter_projectsIn_iff :
    names ∈ (projectsIn n).filter (fun p => isStandardPlace p || !isTrial p) ↔ IsCandidate n names := by
  have hwanted : (isStandardPlace names || !isTrial names) = true ↔
      names.dropLast = ["ios"] ∨ ∀ word ∈ trialWords, ¬ Mentions (relativeText names) word := by
    rw [Bool.or_eq_true, isStandardPlace_iff, Bool.not_eq_true', ← Bool.not_eq_true, isTrial_iff]
    push Not
    rfl
  rw [List.mem_filter, hwanted, mem_projectsIn_iff]
  constructor
  · rintro ⟨⟨front, name, m, rfl, hlead, hfolder, hproject, hfront⟩, hw⟩
    obtain ⟨stem, rfl⟩ := endsWith_iff_exists_append.mp hproject
    refine ⟨⟨m, hlead, hfolder⟩, ⟨front, stem, rfl⟩, fun s hs => ?_, hw⟩
    rw [List.dropLast_concat] at hs
    exact isSearched_iff.mp (hfront s hs)
  · rintro ⟨⟨m, hlead, hfolder⟩, ⟨front, stem, rfl⟩, hsearched, hw⟩
    rw [List.dropLast_concat] at hsearched
    exact ⟨⟨front, _, m, rfl, hlead, hfolder, endsWith_iff_exists_append.mpr ⟨stem, rfl⟩,
      fun s hs => isSearched_iff.mpr (hsearched s hs)⟩, hw⟩

theorem IsCandidate.ne_nil (h : IsCandidate n names) : names ≠ [] := by
  obtain ⟨front, stem, rfl⟩ := h.isProject
  simp

/-- The text of a path tells candidates apart. -/
theorem IsCandidate.eq_of_relativeText_eq (hn : n.Named) (h : IsCandidate n names) (h' : IsCandidate n other)
    (htext : relativeText names = relativeText other) : names = other := by
  have hsteps {l : List String} (hl : IsCandidate n l) : ∀ s ∈ l, Path.IsStep s := fun s hs =>
    have ⟨m, hlead, _⟩ := hl.isFolder
    (hn l m hlead s hs).isStep
  calc names = Path.components (Path.slashed names) := (Path.components_slashed (hsteps h)).symm
    _ = Path.components (Path.slashed other) := by
      rw [Path.slashed_eq h.ne_nil, Path.slashed_eq h'.ne_nil]
      exact congrArg (fun text : String => Path.components ('/' :: text.toList)) htext
    _ = other := Path.components_slashed (hsteps h')

/-! ## The first in order -/

theorem precedes_iff {a b : List String} : precedes a b = true ↔
    if a.dropLast = ["ios"] ↔ b.dropLast = ["ios"] then relativeText a ≤ relativeText b else a.dropLast = ["ios"] := by
  have hsame : (isStandardPlace a == isStandardPlace b) = true ↔ (a.dropLast = ["ios"] ↔ b.dropLast = ["ios"]) := by
    rw [beq_iff_eq, Bool.eq_iff_iff, isStandardPlace_iff, isStandardPlace_iff]
  rw [precedes]
  by_cases h : a.dropLast = ["ios"] ↔ b.dropLast = ["ios"]
  · rw [if_pos h, if_pos (hsame.mpr h), decide_eq_true_eq]
  · rw [if_neg h, if_neg (mt hsame.mp h), isStandardPlace_iff]

theorem precedes_trans (a b c : List String) (hab : precedes a b = true) (hbc : precedes b c = true) :
    precedes a c = true := by
  rw [precedes_iff] at *
  split_ifs at * <;> first | exact hab.trans hbc | tauto

theorem precedes_total (a b : List String) : (precedes a b || precedes b a) = true := by
  rw [Bool.or_eq_true, precedes_iff, precedes_iff]
  split_ifs <;> first | exact le_total _ _ | tauto

/-- What comes first comes before the rest, unless the two have one text. -/
theorem before_of_precedes {a b : List String} (h : precedes a b = true) (hne : relativeText a ≠ relativeText b) :
    Before a b := by
  rw [precedes_iff] at h
  split_ifs at h with hplace
  · exact .text hplace (lt_of_le_of_ne h hne)
  · exact .place h fun hb => hplace ⟨fun _ => hb, fun _ => h⟩

theorem Before.not_precedes {a b : List String} (h : Before a b) : precedes b a = false := by
  rw [← Bool.not_eq_true, precedes_iff]
  cases h with
  | place ha hb =>
    rw [if_neg (by tauto)]
    exact hb
  | text hplace hlt =>
    rw [if_pos hplace.symm, not_le]
    exact hlt

/-- The head of a sorted list comes before all elements. -/
theorem mem_and_forall_of_head?_mergeSort {α : Type} {le : α → α → Bool}
    (htrans : ∀ a b c, le a b = true → le b c = true → le a c = true) (htotal : ∀ a b, (le a b || le b a) = true)
    {l : List α} {a : α} (h : (l.mergeSort le).head? = some a) : a ∈ l ∧ ∀ b ∈ l, b = a ∨ le a b = true := by
  obtain ⟨rest, hsort⟩ := List.head?_eq_some_iff.mp h
  have hmem (b : α) : b ∈ l ↔ b = a ∨ b ∈ rest := by rw [← @List.mem_mergeSort α le b l, hsort, List.mem_cons]
  have hsorted := List.pairwise_mergeSort htrans htotal l
  rw [hsort, List.pairwise_cons] at hsorted
  exact ⟨(hmem a).mpr (.inl rfl), fun b hb => ((hmem b).mp hb).imp_right (hsorted.1 b)⟩

theorem bestProject?_eq_none_iff : bestProject? n = none ↔ ∀ names, ¬ IsCandidate n names := by
  rw [bestProject?, List.head?_eq_none_iff, List.eq_nil_iff_forall_not_mem]
  refine forall_congr' fun names => not_congr ?_
  rw [List.mem_mergeSort, mem_filter_projectsIn_iff]

theorem isBest_of_bestProject?_eq_some (hn : n.Named) (h : bestProject? n = some names) : IsBest n names := by
  obtain ⟨hmem, hfirst⟩ := mem_and_forall_of_head?_mergeSort precedes_trans precedes_total h
  rw [mem_filter_projectsIn_iff] at hmem
  refine ⟨hmem, fun other hother => ?_⟩
  by_cases hsame : other = names
  · exact .inl hsame
  · refine .inr (before_of_precedes ?_ fun htext => hsame (hmem.eq_of_relativeText_eq hn hother htext).symm)
    exact (hfirst other (mem_filter_projectsIn_iff.mpr hother)).resolve_left hsame

/-- There is one best candidate at most. -/
theorem IsBest.unique (h : IsBest n names) (h' : IsBest n other) : other = names := by
  rcases h.2 other h'.1 with heq | hbefore
  · exact heq
  · rcases h'.2 names h.1 with heq | hbefore'
    · exact heq.symm
    · have hnot := hbefore.not_precedes
      have hnot' := hbefore'.not_precedes
      have htotal := precedes_total names other
      rw [hnot, hnot'] at htotal
      contradiction

theorem bestProject?_eq_some_iff (hn : n.Named) : bestProject? n = some names ↔ IsBest n names := by
  refine ⟨isBest_of_bestProject?_eq_some hn, fun h => ?_⟩
  cases hbest : bestProject? n with
  | none => exact absurd h.1 (bestProject?_eq_none_iff.mp hbest names)
  | some other => rw [h.unique (isBest_of_bestProject?_eq_some hn hbest)]

/-! ## Other listings -/

theorem IsCandidate.relisted {m : Node} (h : IsCandidate n names) (hlist : n.Relisted m) : IsCandidate m names := by
  obtain ⟨c, hc, hfolder⟩ := h.isFolder
  obtain ⟨d, hd, hcd⟩ := hlist.exists_leads hc
  exact { h with isFolder := ⟨d, hd, hcd.isFolder_eq.trans hfolder⟩ }

theorem bestProject?_relisted {m : Node} (hn : n.Named) (hlist : n.Relisted m) : bestProject? m = bestProject? n := by
  have hcandidates (names : List String) : IsCandidate m names ↔ IsCandidate n names :=
    ⟨fun h => h.relisted hlist.symm, fun h => h.relisted hlist⟩
  refine Option.ext fun names => ?_
  rw [bestProject?_eq_some_iff (hlist.named hn), bestProject?_eq_some_iff hn]
  simp only [IsBest, hcandidates]

end

/-! ## The project in a folder -/

/-- The project that is found is the best candidate in the folder, none is found exactly if there is no candidate, and
a folder that is listed in another order, at any depth, has the same project. -/
theorem findProject_best (t : Tree) (folder : Path) (hnames : t.root.Named) :
    (∀ project, findProject t folder = some project ↔ ∃ n names, t.folder? folder = some n ∧ IsBest n names ∧
      project = names.foldl Path.child folder) ∧
    (findProject t folder = none ↔ ∀ n names, t.folder? folder = some n → ¬ IsCandidate n names) ∧
    ∀ other n m, t.folder? folder = some n → other.folder? folder = some m → n.Relisted m →
      findProject other folder = findProject t folder := by
  refine ⟨fun project => ?_, ?_, fun other n m hn hm hlist => ?_⟩
  · rw [findProject, Option.bind_eq_some_iff]
    refine exists_congr fun n => ?_
    rw [exists_and_left]
    refine and_congr_right fun hn => ?_
    rw [Option.map_eq_some_iff]
    refine exists_congr fun names => ?_
    rw [bestProject?_eq_some_iff (Tree.named_of_folder? hnames hn), eq_comm (a := project)]
  · rw [findProject]
    cases hn : t.folder? folder with
    | none => simp
    | some n =>
      rw [Option.bind_some, Option.map_eq_none_iff, bestProject?_eq_none_iff]
      refine ⟨fun h m names hm => Option.some.inj hm ▸ h names, fun h names => h n names rfl⟩
  · rw [findProject, findProject, hn, hm, Option.bind_some, Option.bind_some,
      bestProject?_relisted (Tree.named_of_folder? hnames hn) hlist]

/-- A folder with projects for tests and examples beside the ones of the app. -/
def checkout : Tree where
  root := .folder [
    ("Tests.xcodeproj", .folder []),
    ("README.md", .file ⟨#[]⟩),
    ("App.xcodeproj", .folder []),
    ("Examples", .folder [("Demo.xcodeproj", .folder [])]),
    ("ios", .folder [("App.xcodeproj", .folder [])])]
  here := ⟨"/", []⟩

theorem named_checkout : checkout.root.Named := by
  have hnames : ∀ s ∈ ["Tests.xcodeproj", "README.md", "App.xcodeproj", "Examples", "Demo.xcodeproj", "ios"],
      Path.IsName s := by decide
  simp [checkout, Node.named_folder_iff, Node.named_file, hnames]

theorem isBest_checkout : IsBest checkout.root ["ios", "App.xcodeproj"] := by
  refine ⟨⟨⟨.folder [], ?_, rfl⟩, ⟨["ios"], "App", rfl⟩, ?_, .inl rfl⟩, fun other hother => ?_⟩
  · exact .into (by simp) (.into (List.mem_singleton_self _) (.here _))
  · exact fun name hname => isSearched_iff.mp (List.mem_singleton.mp hname ▸ by decide)
  · obtain ⟨front, stem, rfl⟩ := hother.isProject
    by_cases hios : front = ["ios"]
    · subst hios
      obtain ⟨m, hlead, -⟩ := hother.isFolder
      cases hlead with
      | into entry below =>
        simp only [List.mem_cons, Prod.mk.injEq, String.reduceEq, false_and, true_and, false_or, List.not_mem_nil,
          or_false] at entry
        subst entry
        have hentry := List.mem_singleton.mp (Node.leads_singleton_iff.mp below)
        exact .inl (by rw [(Prod.mk.inj hentry).1]; rfl)
    · exact .inr (.place rfl (by rw [List.dropLast_concat]; exact hios))

theorem findProject_best_checkout : checkout.root.Named ∧
    findProject checkout ⟨"/", []⟩ = some ⟨"/", ["ios", "App.xcodeproj"]⟩ :=
  ⟨named_checkout, ((findProject_best checkout ⟨"/", []⟩ named_checkout).1 _).mpr
    ⟨checkout.root, ["ios", "App.xcodeproj"], rfl, isBest_checkout, rfl⟩⟩

end Ios
end ModuleLink
