import Mathlib
import ModuleLink.Proofs.Xcode.Rewritten

/-!
What becomes of the sections of a text in order: in a section what is left of the old objects and the new ones in
between, no section that has lost all of its objects, and new sections in the order of the kinds.
-/

namespace ModuleLink
namespace Xcode

open Plist Text

/-! ## Weaving -/

section Weave

variable {α β : Type} {before : β → α → Bool} {image : α → List β} {news : List β} {xs pre post : List α} {x : α}

/-- New elements among old ones: each goes in front of the first old one that it comes before, or to the end, and what
has become of an old one stays in its place. -/
def weave (before : β → α → Bool) (image : α → List β) : (news : List β) → List α → List β
  | news, [] => news
  | news, x :: xs => news.filter (before · x) ++ (image x ++ weave before image (news.filter fun n => !before n x) xs)

/-- The new elements that go behind the first old ones. -/
def leftBehind (before : β → α → Bool) (news : List β) (pre : List α) : List β :=
  news.filter fun n => pre.all fun x => !before n x

theorem leftBehind_nil : leftBehind before news [] = news := List.filter_eq_self.mpr fun _ _ => rfl

theorem filter_leftBehind (p : β → Bool) :
    (leftBehind before news pre).filter p = news.filter fun n => p n && pre.all fun x => !before n x :=
  List.filter_filter

theorem leftBehind_append_singleton :
    leftBehind before news (pre ++ [x]) = (leftBehind before news pre).filter fun n => !before n x := by
  rw [filter_leftBehind, leftBehind]
  refine List.filter_congr fun n _ => ?_
  rw [List.all_append, List.all_cons, List.all_nil, Bool.and_true, Bool.and_comm]

/-- Old elements that no new one comes before do not matter. -/
theorem leftBehind_append_of_never (h : ∀ x ∈ xs, ∀ n, before n x = false) :
    leftBehind before news (pre ++ xs) = leftBehind before news pre := by
  refine List.filter_congr fun n _ => ?_
  have hall : (xs.all fun x => !before n x) = true := List.all_eq_true.mpr fun x hx => by rw [h x hx n]; rfl
  rw [List.all_append, hall, Bool.and_true]

/-- The new elements are placed step by step. -/
theorem weave_leftBehind_cons : weave before image (leftBehind before news pre) (x :: xs) =
    (news.filter fun n => before n x && pre.all fun y => !before n y) ++
      (image x ++ weave before image (leftBehind before news (pre ++ [x])) xs) := by
  rw [weave, filter_leftBehind, leftBehind_append_singleton]

/-- An old element of which nothing is left, and which no new one comes before. -/
theorem weave_cons_of_gone (himage : image x = []) (hnever : ∀ n, before n x = false) :
    weave before image news (x :: xs) = weave before image news xs := by
  have hnone : news.filter (before · x) = [] := List.filter_eq_nil_iff.mpr fun n _ => by simp [hnever n]
  have hall : (news.filter fun n => !before n x) = news := List.filter_eq_self.mpr fun n _ => by simp [hnever n]
  rw [weave, hnone, himage, hall, List.nil_append, List.nil_append]

theorem weave_of_gone (h : ∀ x ∈ xs, image x = [] ∧ ∀ n, before n x = false) : weave before image news xs = news := by
  induction xs with
  | nil => rfl
  | cons x xs ih =>
    obtain ⟨himage, hbefore⟩ := h x (List.mem_cons_self ..)
    rw [weave_cons_of_gone himage hbefore, ih fun y hy => h y (List.mem_cons_of_mem _ hy)]

theorem weave_ne_nil (h : ∃ x ∈ xs, image x ≠ []) : weave before image news xs ≠ [] := by
  induction xs generalizing news with
  | nil => simp at h
  | cons x xs ih =>
    obtain ⟨y, hy, himage⟩ := h
    rw [weave]
    rcases List.mem_cons.mp hy with rfl | hy
    · simp [himage]
    · simp [ih ⟨y, hy, himage⟩]

/-- Weaving loses nothing and makes nothing up. -/
theorem mem_weave {y : β} : y ∈ weave before image news xs ↔ y ∈ news ∨ ∃ x ∈ xs, y ∈ image x := by
  induction xs generalizing news with
  | nil => simp [weave]
  | cons x xs ih =>
    have hsplit : y ∈ news ↔ y ∈ news.filter (before · x) ∨ y ∈ news.filter fun n => !before n x := by
      cases hy : before y x <;> simp [List.mem_filter, hy]
    rw [weave, List.mem_append, List.mem_append, ih, hsplit, List.exists_mem_cons_iff]
    tauto

theorem perm_weave (news : List β) (xs : List α) : (weave before image news xs).Perm (news ++ xs.flatMap image) := by
  induction xs generalizing news with
  | nil => rw [List.flatMap_nil, List.append_nil, weave]
  | cons x xs ih =>
    have hsplit : (news.filter (before · x) ++ news.filter fun n => !before n x).Perm news := List.filter_append_perm _ _
    have hswap (as bs cs ds : List β) : (as ++ (bs ++ (cs ++ ds))).Perm (as ++ cs ++ (bs ++ ds)) := by
      rw [List.append_assoc, ← List.append_assoc bs, ← List.append_assoc cs]
      exact (List.perm_append_comm.append_right ds).append_left as
    rw [weave, List.flatMap_cons]
    exact (((ih _).append_left (image x)).append_left _).trans ((hswap _ _ _ _).trans (hsplit.append_right _))

/-- What has become of the old ones keeps its order. -/
theorem sublist_weave : (xs.flatMap image).Sublist (weave before image news xs) := by
  induction xs generalizing news with
  | nil => exact List.nil_sublist _
  | cons x xs ih =>
    rw [weave, List.flatMap_cons]
    exact ((List.Sublist.refl _).append ih).trans (List.sublist_append_right _ _)

/-- New elements go to where they sort. -/
theorem pairwise_weave {key : β → String} {key' : α → String} (hnews : news.Pairwise fun a b => key a < key b)
    (hxs : xs.Pairwise fun a b => key' a < key' b)
    (hbefore : ∀ x ∈ xs, (∀ n, before n x = decide (key n < key' x)) ∨ (image x = [] ∧ ∀ n, before n x = false))
    (himage : ∀ x ∈ xs, image x = [] ∨ ∃ y, image x = [y] ∧ key y = key' x)
    (hne : ∀ n ∈ news, ∀ x ∈ xs, image x ≠ [] → key n ≠ key' x) :
    (weave before image news xs).Pairwise fun a b => key a < key b := by
  induction xs generalizing news with
  | nil => exact hnews
  | cons x xs ih =>
    obtain ⟨hlater, hxs⟩ := List.pairwise_cons.mp hxs
    rw [List.forall_mem_cons] at hbefore himage
    have hrest {news' : List β} (hsub : news'.Sublist news) :
        (weave before image news' xs).Pairwise fun a b => key a < key b :=
      ih (hnews.sublist hsub) hxs hbefore.2 himage.2 fun n hn z hz =>
        hne n (hsub.subset hn) z (List.mem_cons_of_mem _ hz)
    rcases hbefore.1 with hdecide | ⟨hgone, hnever⟩
    · -- What is left behind does not sort before the old element.
      have hbehind : ∀ z ∈ weave before image (news.filter fun n => !before n x) xs,
          key' x ≤ key z ∧ (image x ≠ [] → key' x < key z) := by
        intro z hz
        rcases mem_weave.mp hz with hz | ⟨v, hv, hz⟩
        · obtain ⟨hz, hnot⟩ := List.mem_filter.mp hz
          rw [hdecide] at hnot
          have hle : key' x ≤ key z := not_lt.mp (of_decide_eq_false ((Bool.not_eq_true' _).mp hnot))
          exact ⟨hle, fun hx => lt_of_le_of_ne hle (hne z hz x (List.mem_cons_self ..) hx).symm⟩
        · rcases himage.2 v hv with hnone | ⟨y, hy, hkey⟩
          · rw [hnone] at hz
            contradiction
          · rw [hy] at hz
            rw [List.mem_singleton.mp hz, hkey]
            exact ⟨(hlater v hv).le, fun _ => hlater v hv⟩
      have hfirst : ∀ n ∈ news.filter (before · x), key n < key' x := fun n hn =>
        of_decide_eq_true ((hdecide n).symm.trans (List.mem_filter.mp hn).2)
      rw [weave]
      refine List.pairwise_append.mpr ⟨hnews.sublist List.filter_sublist, ?_, fun a ha b hb => ?_⟩
      · rcases himage.1 with hnone | ⟨y, hy, hkey⟩
        · rw [hnone]
          exact hrest List.filter_sublist
        · rw [hy]
          exact .cons (fun z hz => hkey ▸ (hbehind z hz).2 (by simp [hy])) (hrest List.filter_sublist)
      · refine lt_of_lt_of_le (hfirst a ha) ?_
        rcases List.mem_append.mp hb with hb | hb
        · rcases himage.1 with hnone | ⟨y, hy, hkey⟩
          · rw [hnone] at hb
            contradiction
          · rw [hy] at hb
            rw [List.mem_singleton.mp hb, hkey]
        · exact (hbehind b hb).1
    · rw [weave_cons_of_gone hgone hnever]
      exact hrest (List.Sublist.refl _)

/-- The first element with a property is a given one if that has it and those before it have not. -/
theorem find?_any (q : α → Bool) (key : α → String) (hnodup : ((pre ++ x :: post).map key).Nodup) :
    ((pre ++ x :: post).find? q).any (fun y => key y == key x) = (q x && pre.all fun y => !q y) := by
  induction pre with
  | nil =>
    rw [List.nil_append, List.find?_cons, List.all_nil, Bool.and_true]
    cases hq : q x with
    | true => exact beq_self_eq_true _
    | false =>
      have hx := (List.nodup_cons.mp hnodup).1
      refine (Option.any_eq_false _ _).mpr fun y hy => beq_eq_false_iff_ne.mpr fun heq => hx ?_
      rw [← heq]
      exact List.mem_map_of_mem (List.mem_of_find?_eq_some hy)
  | cons z pre ih =>
    rw [List.cons_append, List.map_cons, List.nodup_cons] at hnodup
    rw [List.cons_append, List.find?_cons, List.all_cons]
    cases hq : q z with
    | true =>
      have hne : key z ≠ key x := fun heq => hnodup.1 (heq ▸ List.mem_map_of_mem (by simp))
      simp [hne]
    | false =>
      rw [Bool.not_false, Bool.true_and]
      exact ih hnodup.2

end Weave

/-! ## What becomes of the parts of a section -/

/-- A new object goes in front of one that sorts behind it. -/
def Part.sortsBefore : (new old : Part) → Bool
  | .object n, .object l => decide (n.id < l.id)
  | _, _ => false

variable {L : Layout} {lead gap : List Filler} {g : Graph} {s s' : Section} {k : Kind} {l : ObjectLines}
  {n offset : Nat} {c : Cell} {o : Object} {isa : String} {as bs : List Block} {pre post : List Kind}

namespace Writer

variable (w : Writer L g)

def partImage : Part → List Part
  | .filler f => [.filler f]
  | .object l => (w.image l).map .object

/-- The lines of the new objects of a kind. -/
def newLines (isa : String) : List ObjectLines := (g.newcomers isa).map w.new

/-- What has become of the parts of a section, with the new objects in between. -/
def refilled (k : Kind) : List Part :=
  weave Part.sortsBefore w.partImage ((w.newLines k.isa).map .object) k.parts

theorem isa_newLines (h : l ∈ w.newLines isa) : l.object.isa = isa := by
  obtain ⟨o, ho, rfl⟩ := List.mem_map.mp h
  exact w.new_isa isa o ho

theorem mem_image {l' : ObjectLines} (h : l' ∈ w.image l) : l.id ∉ g.removed ∧ l' = w.again l := by
  rw [image] at h
  split at h
  · contradiction
  next hkept => exact ⟨fun hin => hkept (List.contains_iff_mem.mpr hin), List.mem_singleton.mp h⟩

/-- What is left of objects are those that were not removed. -/
theorem map_id_images (ls : List ObjectLines) : (ls.flatMap w.image).map ObjectLines.id =
    (ls.map ObjectLines.id).filter fun id => !g.removed.contains id := by
  induction ls with
  | nil => rfl
  | cons l ls ih =>
    rw [List.flatMap_cons, List.map_append, ih, List.map_cons, List.filter_cons, image]
    cases g.removed.contains l.id with
    | true => rfl
    | false => exact congrArg (· :: _) (w.again_id l)

/-- The section of a kind, refilled. -/
def refill (k : Kind) : Kind where
  isa := k.isa
  parts := w.refilled k
  isa_ne := k.isa_ne
  isa_word := k.isa_word
  own l hl := by
    rcases mem_weave.mp hl with hl | ⟨p, hp, hl⟩
    · obtain ⟨l', hl', heq⟩ := List.mem_map.mp hl
      obtain rfl := Part.object.inj heq
      exact w.isa_newLines hl'
    · cases p with
      | filler f => exact absurd (List.mem_singleton.mp hl) (by simp)
      | object l₀ =>
        obtain ⟨l', hl', heq⟩ := List.mem_map.mp hl
        obtain rfl := Part.object.inj heq
        obtain ⟨-, rfl⟩ := w.mem_image hl'
        exact (w.again_isa l₀).trans (k.own l₀ hp)

/-- A section of new objects. -/
def newKind (isa : String) (h : IsKindName isa) : Kind where
  isa := isa
  parts := (w.newLines isa).map .object
  isa_ne := h.nonempty
  isa_word := h.word
  own l hl := by
    obtain ⟨l', hl', heq⟩ := List.mem_map.mp hl
    obtain rfl := Part.object.inj heq
    exact w.isa_newLines hl'

def newKinds : List Kind := g.newIsas.pmap (fun isa h => w.newKind isa h) w.named

theorem map_isa_newKinds : w.newKinds.map Kind.isa = g.newIsas := by
  rw [newKinds, List.map_pmap]
  exact (List.pmap_eq_map _).trans (List.map_id _)

theorem parts_newKinds (hk : k ∈ w.newKinds) : k.parts = (w.newLines k.isa).map .object := by
  obtain ⟨isa, hisa, rfl⟩ := List.mem_pmap.mp hk
  rfl

theorem flatMap_text_newLines {os : List Object} (hos : ∀ o ∈ os, o ∈ g.newcomers isa) :
    (os.map w.new).flatMap ObjectLines.text = os.flatMap Object.lines := by
  rw [List.flatMap_map]
  exact List.flatMap_congr fun o ho => w.new_text isa o (hos o ho)

theorem textOf_newKinds (hk : k ∈ w.newKinds) : textOf k.cells = g.newSection k.isa := by
  have hobjects (ls : List ObjectLines) :
      textOf ((ls.map Part.object).map Cell.part) = ls.flatMap ObjectLines.text := by
    induction ls with
    | nil => rfl
    | cons l ls ih =>
      rw [List.map_cons, List.map_cons, textOf_cons, ih, List.flatMap_cons]
      rfl
  rw [Kind.textOf_cells, w.parts_newKinds hk, hobjects, newLines, w.flatMap_text_newLines fun o ho => ho,
    Graph.newSection]

/-- New sections, as many as there are kinds with a property. -/
theorem flatMap_newKinds {p : Kind → Bool} {q : String → Bool} {f : Kind → List Char} {f' : String → List Char}
    (hpq : ∀ k ∈ w.newKinds, p k = q k.isa) (hf : ∀ k ∈ w.newKinds, f k = f' k.isa) :
    (w.newKinds.filter p).flatMap f = (g.newIsas.filter q).flatMap f' := by
  rw [← w.map_isa_newKinds, List.filter_map, List.flatMap_map]
  rw [List.filter_congr hpq]
  exact List.flatMap_congr fun k hk => hf k (List.mem_filter.mp hk).1

/-- The objects of a section are woven from the old ones and the new ones. -/
theorem objects_weave (news : List ObjectLines) (ps : List Part) :
    (weave Part.sortsBefore w.partImage (news.map .object) ps).filterMap Part.object? =
      weave (fun n l => decide (n.id < l.id)) w.image news (ps.filterMap Part.object?) := by
  have hobjects (ls : List ObjectLines) : (ls.map Part.object).filterMap Part.object? = ls := by
    rw [List.filterMap_map]
    exact List.filterMap_some
  induction ps generalizing news with
  | nil => exact hobjects news
  | cons p ps ih =>
    cases p with
    | filler f =>
      have hnever : ∀ n, Part.sortsBefore n (.filler f) = false := fun n => by cases n <;> rfl
      rw [weave, List.filter_eq_nil_iff.mpr fun n _ => by simp [hnever n],
        List.filter_eq_self.mpr fun n _ => by simp [hnever n], List.nil_append, List.filterMap_append, ih]
      rfl
    | object l =>
      have hcons : (Part.object l :: ps).filterMap Part.object? = l :: ps.filterMap Part.object? := rfl
      rw [hcons, weave, weave, List.filter_map, List.filter_map, List.filterMap_append, List.filterMap_append, hobjects,
        ih, partImage, hobjects]
      rfl

theorem objects_refill (k : Kind) : (w.refill k).objects =
    weave (fun n l => decide (n.id < l.id)) w.image (w.newLines k.isa) k.objects :=
  w.objects_weave _ _

theorem objects_newKinds (hk : k ∈ w.newKinds) : k.objects = w.newLines k.isa := by
  rw [Kind.objects, w.parts_newKinds hk, List.filterMap_map]
  exact List.filterMap_some

/-- The new objects of a kind with a property. -/
theorem flatMap_newLines {p : Part → Bool} {q : Object → Bool}
    (hpq : ∀ o ∈ g.newcomers isa, p (.object (w.new o)) = q o) :
    (((w.newLines isa).map .object).filter p).flatMap Part.text = ((g.newcomers isa).filter q).flatMap Object.lines := by
  have hfilter : (g.newcomers isa).filter (p ∘ Part.object ∘ w.new) = (g.newcomers isa).filter q := List.filter_congr hpq
  rw [newLines, List.map_map, List.filter_map, List.flatMap_map, hfilter]
  exact List.flatMap_congr fun o ho => w.new_text isa o (List.mem_filter.mp ho).1

end Writer

theorem all_sortsBefore (l : ObjectLines) (ps : List Part) : (ps.all fun p => !Part.sortsBefore (.object l) p) =
    (ps.filterMap Part.object?).all fun l' => !decide (l.id < l'.id) := by
  induction ps with
  | nil => rfl
  | cons p ps ih =>
    cases p with
    | filler f => exact ih
    | object l' => exact congrArg (!decide (l.id < l'.id) && ·) ih

/-! ## Sections and kinds -/

theorem sectionsIn_forall₂ {R : Section → Kind → Prop} (hR : ∀ k ∈ kindsIn bs, ∀ n, R (k.section n) k) (offset : Nat) :
    List.Forall₂ R (sectionsIn offset bs) (kindsIn bs) := by
  induction bs generalizing offset with
  | nil => exact .nil
  | cons b bs ih =>
    cases b with
    | filler f => exact ih hR _
    | kind k =>
      exact .cons (hR k (List.mem_cons_self ..) offset) (ih (fun x hx => hR x (List.mem_cons_of_mem _ hx)) _)

theorem le_beginStart (hs : s ∈ sectionsIn offset bs) : offset ≤ s.beginStart := by
  induction bs generalizing offset with
  | nil => contradiction
  | cons b bs ih =>
    cases b with
    | filler f => exact Nat.le_trans (Nat.le_add_right _ _) (ih hs)
    | kind k =>
      rcases List.mem_cons.mp hs with rfl | hs
      · exact Nat.le_refl offset
      · exact Nat.le_trans (Nat.le_add_right _ _) (ih hs)

/-- Sections are listed by place. -/
theorem sectionsIn_pairwise (offset : Nat) (bs : List Block) :
    (sectionsIn offset bs).Pairwise fun a b => decide (a.beginStart ≤ b.beginStart) = true := by
  induction bs generalizing offset with
  | nil => exact .nil
  | cons b bs ih =>
    cases b with
    | filler f => exact ih _
    | kind k =>
      refine .cons (fun s hs => decide_eq_true ?_) (ih _)
      exact Nat.le_trans (Nat.le_add_right offset _) (le_beginStart hs)

theorem find?_forall₂ {ss : List Section} {ks : List Kind} {p : Section → Bool} {q : Kind → Bool}
    (h : List.Forall₂ (fun s k => s.isa = k.isa ∧ p s = q k) ss ks) :
    (ss.find? p).map Section.isa = (ks.find? q).map Kind.isa := by
  induction h with
  | nil => rfl
  | cons hsk _ ih =>
    rw [List.find?_cons, List.find?_cons, hsk.2]
    split
    · exact congrArg some hsk.1
    · exact ih

namespace Graph

/-- The section has lost all its objects and gets none. -/
def loses (g : Graph) (k : Kind) : Bool :=
  (k.objects.all fun l => g.removed.contains l.id) && (g.addedObjects.lookup k.isa).isNone

/-- A new section goes in front of one that sorts behind it and is kept. -/
def goesBefore (g : Graph) (new k : Kind) : Bool := decide (new.isa < k.isa) && !g.loses k

end Graph

theorem goesBefore_of_loses (hk : g.loses k = true) (new : Kind) : g.goesBefore new k = false := by
  rw [Graph.goesBefore, hk, Bool.not_true, Bool.and_false]

/-- A section is taken out if it has lost all its objects. -/
theorem isDropped_section (hk : k.objects ≠ []) (n : Nat) : g.isDropped (k.section n) = g.loses k := by
  have hne : (k.objects.map ObjectLines.id).isEmpty = false := by simpa using hk
  rw [Graph.isDropped, Graph.loses, Kind.section, hne]
  simp only [Bool.not_false, Bool.true_and, List.all_map]
  rfl

namespace Writer

variable (w : Writer L g)

/-- What has become of a section. -/
def kept (k : Kind) : List Kind := if g.loses k then [] else [w.refill k]

/-- What has become of the sections, with the new ones in between. -/
def kinds : List Kind := weave g.goesBefore w.kept w.newKinds (kindsIn L.blocks)

/-- The new sections behind all others. -/
def lastKinds : List Kind := leftBehind g.goesBefore w.newKinds (kindsIn L.blocks)

theorem kept_of_loses (hk : g.loses k = true) : w.kept k = [] := if_pos hk

theorem kept_of_not_loses (hk : g.loses k = false) : w.kept k = [w.refill k] := if_neg (by simp [hk])

end Writer

namespace Rewrites

theorem sectionAfter_eq (h : Rewrites L lead gap g) (isa : String) :
    g.sectionAfter isa = g.sections.find? fun s => decide (isa < s.isa) && !g.isDropped s := by
  have hsorted : g.sections.Pairwise fun a b => decide (a.beginStart ≤ b.beginStart) = true := by
    rw [h.sections]
    exact sectionsIn_pairwise _ _
  rw [Graph.sectionAfter, List.mergeSort_of_pairwise (hsorted.sublist List.filter_sublist), List.head?_filter]

/-- The section that a new one goes in front of is that of the first kind it goes before. -/
theorem map_isa_sectionAfter (h : Rewrites L lead gap g) (new : Kind) :
    (g.sectionAfter new.isa).map Section.isa = ((kindsIn L.blocks).find? (g.goesBefore new)).map Kind.isa := by
  rw [h.sectionAfter_eq, h.sections]
  refine find?_forall₂ (sectionsIn_forall₂ (fun k hk n => ⟨rfl, ?_⟩) _)
  rw [isDropped_section (h.spaced.filled k hk)]
  rfl

theorem sectionAfter_any (h : Rewrites L lead gap g) (new : Kind) (hkinds : kindsIn L.blocks = pre ++ k :: post) :
    (g.sectionAfter new.isa).any (·.isa == k.isa) =
      (g.goesBefore new k && pre.all fun k' => !g.goesBefore new k') := by
  have hnodup : ((kindsIn L.blocks).map Kind.isa).Nodup := L.isas_nodup
  rw [hkinds] at hnodup
  calc (g.sectionAfter new.isa).any (·.isa == k.isa)
      = ((g.sectionAfter new.isa).map Section.isa).any (· == k.isa) := by rw [Option.any_map]
    _ = (((kindsIn L.blocks).find? (g.goesBefore new)).map Kind.isa).any (· == k.isa) := by rw [h.map_isa_sectionAfter]
    _ = _ := by
      rw [Option.any_map, hkinds]
      exact find?_any _ Kind.isa hnodup

theorem sectionAfter_isNone (h : Rewrites L lead gap g) (new : Kind) :
    (g.sectionAfter new.isa).isNone = (kindsIn L.blocks).all fun k => !g.goesBefore new k := by
  rw [← Option.isNone_map (f := Section.isa), h.map_isa_sectionAfter, Option.isNone_map, Bool.eq_iff_iff,
    Option.isNone_iff_eq_none, List.find?_eq_none, List.all_eq_true]
  simp

/-! ## What becomes of the lines of a section -/

/-- The span of a member is the place of its lines. -/
theorem exists_at_member (h : Rewrites L lead gap g) (hs : s ∈ g.sections) {m : String} (hm : m ∈ s.members) :
    ∃ l n, L.At n (.part (.object l)) ∧ l.id = m ∧ ∃ span, g.spans.lookup m = some span ∧ span.start = n := by
  obtain ⟨as, k, bs, hcells, -, -, -, -, -, hmembers⟩ := h.laid.exists_kind hs
  obtain ⟨l, hl, rfl⟩ := (hmembers m).mp hm
  have hl : l ∈ L.objects := Layout.mem_objects.mpr (by
    rw [hcells]
    simp [Kind.cells, Layout.mem_kind_objects.mp hl])
  obtain ⟨n, hat⟩ := Layout.exists_at hl
  obtain ⟨inline, hspan⟩ := h.laid.exists_span hat
  exact ⟨l, n, hat, rfl, _, hspan, rfl⟩

/-- A new object goes in front of the first one that sorts behind it. -/
theorem placeIn_object (h : Rewrites L lead gap g) (hs : s ∈ g.sections) (hat : L.At n (.part (.object l)))
    (o : Object) : (g.placeIn s o == n) = (s.members.find? fun m => decide (o.id < m)).any (· == l.id) := by
  rw [Graph.placeIn]
  cases hfind : s.members.find? fun m => decide (o.id < m) with
  | none =>
    have hne : s.endStart ≠ n := by
      rintro rfl
      exact absurd (at_unique hat (h.end_at hs)) (by simp)
    simpa using hne
  | some m =>
    obtain ⟨l', n', hat', rfl, span, hspan, rfl⟩ := h.exists_at_member hs (List.mem_of_find?_eq_some hfind)
    rw [Option.bind_some, hspan, Option.elim_some, Option.any_some, Bool.eq_iff_iff, beq_iff_eq, beq_iff_eq]
    constructor
    · rintro rfl
      rw [Part.object.inj (Cell.part.inj (at_unique hat hat'))]
    · exact fun hid => hat'.eq_of_id hat hid

/-- A new object goes to the end if it sorts in front of none. -/
theorem placeIn_end (h : Rewrites L lead gap g) (hs : s ∈ g.sections) (o : Object) :
    (g.placeIn s o == s.endStart) = s.members.all fun m => !decide (o.id < m) := by
  rw [Graph.placeIn]
  cases hfind : s.members.find? fun m => decide (o.id < m) with
  | none =>
    have hall : (s.members.all fun m => !decide (o.id < m)) = true := by simpa using hfind
    rw [hall]
    exact beq_self_eq_true _
  | some m =>
    have hmem := List.mem_of_find?_eq_some hfind
    have hlt : decide (o.id < m) = true := by simpa using List.find?_some hfind
    have hall : (s.members.all fun m => !decide (o.id < m)) = false :=
      List.all_eq_false.mpr ⟨m, hmem, by rw [hlt]; decide⟩
    obtain ⟨l', n', hat', rfl, span, hspan, rfl⟩ := h.exists_at_member hs hmem
    rw [Option.bind_some, hspan, Option.elim_some, hall]
    refine beq_eq_false_iff_ne.mpr fun heq => ?_
    rw [heq] at hat'
    exact absurd (at_unique hat' (h.end_at hs)) (by simp)

/-- Which new objects go in front of an object of a section. -/
theorem placeIn_part (h : Rewrites L lead gap g) (w : Writer L g) (hk : k ∈ kindsIn L.blocks)
    (hs : k.section offset ∈ g.sections) {ps qs : List Part} (hparts : k.parts = ps ++ .object l :: qs)
    (hat : L.At n (.part (.object l))) (ho : o ∈ g.newcomers k.isa) : (g.placeIn (k.section offset) o == n) =
      (Part.sortsBefore (.object (w.new o)) (.object l) && ps.all fun p => !Part.sortsBefore (.object (w.new o)) p) := by
  have hobjects : k.objects = ps.filterMap Part.object? ++ l :: qs.filterMap Part.object? := by
    rw [Kind.objects, hparts, List.filterMap_append]
    rfl
  have hnodup := nodup_ids_of_kind hk
  rw [hobjects] at hnodup
  have hfind : ((ps.filterMap Part.object? ++ l :: qs.filterMap Part.object?).find? fun l' => decide (o.id < l'.id)).any
      (fun l' => l'.id == l.id) =
        (decide (o.id < l.id) && (ps.filterMap Part.object?).all fun l' => !decide (o.id < l'.id)) :=
    find?_any _ ObjectLines.id hnodup
  rw [h.placeIn_object hs hat, show (k.section offset).members = k.objects.map ObjectLines.id from rfl, hobjects,
    List.find?_map, Option.any_map, all_sortsBefore, Part.sortsBefore, w.new_id k.isa o ho]
  exact hfind

/-- Which new objects go behind all objects of a section. -/
theorem placeIn_last (h : Rewrites L lead gap g) (w : Writer L g) (hs : k.section offset ∈ g.sections)
    (ho : o ∈ g.newcomers k.isa) : (g.placeIn (k.section offset) o == (k.section offset).endStart) =
      k.parts.all fun p => !Part.sortsBefore (.object (w.new o)) p := by
  rw [h.placeIn_end hs, show (k.section offset).members = k.objects.map ObjectLines.id from rfl, all_sortsBefore,
    List.all_map, w.new_id k.isa o ho]
  rfl

/-- What becomes of the parts of a section that is kept, from one of them on. -/
theorem pieces_parts (h : Rewrites L lead gap g) (w : Writer L g) (hk : k ∈ kindsIn L.blocks)
    (hs : k.section offset ∈ g.sections) (hkept : g.isDropped (k.section offset) = false) {ps qs : List Part}
    (hparts : k.parts = ps ++ qs) {cs ds : List Cell}
    (hcells : L.cells = cs ++ (qs.map .part ++ .marker false k.isa :: ds))
    (hbegin : (k.section offset).beginStart ≤ L.head.length + (textOf cs).length)
    (hend : (k.section offset).endStart = L.head.length + (textOf (cs ++ qs.map .part)).length) :
    piecesFrom g.editsInOrder (L.head.length + (textOf cs).length)
        ((qs.map Cell.part).map Cell.text ++ [markerLine false k.isa]) =
      (weave Part.sortsBefore w.partImage (leftBehind Part.sortsBefore ((w.newLines k.isa).map .object) ps) qs).flatMap
        Part.text ++ markerLine false k.isa := by
  induction qs generalizing ps cs with
  | nil =>
    rw [List.map_nil, List.append_nil] at hend
    rw [List.append_nil] at hparts
    have hat : L.At (k.section offset).endStart (.marker false k.isa) := ⟨cs, ds, hcells, hend⟩
    have hplace : (leftBehind Part.sortsBefore ((w.newLines k.isa).map .object) ps).flatMap Part.text = _ :=
      w.flatMap_newLines fun o ho => hparts ▸ (h.placeIn_last w hs ho).symm
    have hmarker : replaced g.editsInOrder (k.section offset).endStart (markerLine false k.isa) =
        markerLine false k.isa := h.replaced_marker hs hat (.inr rfl) hkept
    rw [← hend, List.map_nil, List.map_nil, List.nil_append, piecesFrom, piecesFrom,
      h.putsAt_inside hs hat (.inr rfl), hmarker, List.append_nil, weave, hplace]
    rfl
  | cons p qs ih =>
    have hcells' : L.cells = cs ++ .part p :: (qs.map .part ++ .marker false k.isa :: ds) := hcells
    have hat : L.At (L.head.length + (textOf cs).length) (.part p) := ⟨cs, _, hcells', rfl⟩
    have hlen : (textOf (cs ++ [.part p])).length = (textOf cs).length + p.text.length := by
      rw [textOf_append, List.length_append, textOf_cons, textOf_nil, List.append_nil]
      rfl
    have hrest := ih (hparts.trans (List.append_cons ps p qs)) (hcells'.trans (List.append_cons cs (.part p) _))
      (by omega) (hend.trans (by rw [← List.append_cons]; rfl))
    rw [hlen, ← Nat.add_assoc] at hrest
    rw [weave_leftBehind_cons, List.flatMap_append, List.flatMap_append, List.append_assoc, List.append_assoc, ← hrest]
    show putsAt g.editsInOrder _ ++ (replaced g.editsInOrder _ p.text ++ _) = _
    cases p with
    | filler f =>
      have hnever : ∀ new, Part.sortsBefore new (.filler f) = false := fun new => by cases new <;> rfl
      have hle : L.head.length + (textOf cs).length ≤ (k.section offset).endStart := by
        rw [hend, textOf_append, List.length_append]
        omega
      have hstays := h.replaced_of_kept hat rfl fun s' hs' hdropped =>
        h.not_covers_of_kept hs hkept hbegin hle hs' hdropped
      rw [h.putsAt_filler hat, List.filter_eq_nil_iff.mpr fun new _ => by simp [hnever new]]
      exact congrArg (· ++ _) (hstays.trans (List.append_nil _).symm)
    | object l =>
      have hplace : (((w.newLines k.isa).map .object).filter fun new => Part.sortsBefore new (.object l) &&
          ps.all fun p => !Part.sortsBefore new p).flatMap Part.text = _ :=
        w.flatMap_newLines fun o ho => (h.placeIn_part w hk hs hparts hat ho).symm
      have hown : l.object.isa = k.isa := k.own l (by rw [hparts]; simp)
      have himage : (w.partImage (.object l)).flatMap Part.text = (w.image l).flatMap ObjectLines.text :=
        List.flatMap_map ..
      rw [hplace, himage, ← h.replaced_object w hat]
      exact congrArg (· ++ _) (h.putsAt_inside hs hat (.inl ⟨l, rfl, hown⟩))

theorem section_mem (h : Rewrites L lead gap g) (hblocks : L.blocks = as ++ .kind k :: bs) :
    k.section (L.head.length + (textOf (cellsOf as)).length) ∈ g.sections := by
  rw [h.sections, hblocks, sectionsIn_append]
  exact List.mem_append_right _ (List.mem_cons_self ..)

/-- What becomes of a section that is kept. -/
theorem pieces_kind (h : Rewrites L lead gap g) (w : Writer L g) (hkinds : kindsIn L.blocks = pre ++ k :: post)
    (hblocks : L.blocks = as ++ .kind k :: bs) (hkept : g.loses k = false) :
    piecesFrom g.editsInOrder (L.head.length + (textOf (cellsOf as)).length) (k.cells.map Cell.text) =
      (w.newKinds.filter fun new => g.goesBefore new k && pre.all fun k' => !g.goesBefore new k').flatMap
        (fun new => textOf new.cells ++ ['\n']) ++ textOf (w.refill k).cells := by
  have hk : k ∈ kindsIn L.blocks := hkinds ▸ by simp
  have hs := h.section_mem hblocks
  generalize hoffset : L.head.length + (textOf (cellsOf as)).length = offset at hs ⊢
  have hdropped : g.isDropped (k.section offset) = false :=
    (isDropped_section (h.spaced.filled k hk) offset).trans hkept
  have hcells : L.cells = (cellsOf as ++ [.marker true k.isa]) ++
      (k.parts.map .part ++ .marker false k.isa :: cellsOf bs) := by
    rw [Layout.cells, hblocks, cellsOf_append, cellsOf_cons, Block.cells, Kind.cells]
    simp only [List.append_assoc, List.cons_append, List.nil_append]
  have hbehind : L.head.length + (textOf (cellsOf as ++ [.marker true k.isa])).length =
      offset + (markerLine true k.isa).length := by
    rw [textOf_append, List.length_append, textOf_cons, textOf_nil, List.append_nil, ← Nat.add_assoc, hoffset]
    rfl
  have hbegin : (k.section offset).beginStart ≤
      L.head.length + (textOf (cellsOf as ++ [.marker true k.isa])).length := by
    rw [hbehind]
    exact Nat.le_add_right _ _
  have hend : (k.section offset).endStart =
      L.head.length + (textOf (cellsOf as ++ [.marker true k.isa] ++ k.parts.map .part)).length := by
    rw [textOf_append, List.length_append, ← Nat.add_assoc, hbehind]
    rfl
  have hparts := h.pieces_parts w hk hs hdropped (List.nil_append _).symm hcells hbegin hend
  rw [leftBehind_nil, hbehind] at hparts
  have hmarker := h.replaced_marker hs (h.begin_at hs) (.inl rfl) hdropped
  have hputs : putsAt g.editsInOrder offset =
      (w.newKinds.filter fun new => g.goesBefore new k && pre.all fun k' => !g.goesBefore new k').flatMap
        fun new => textOf new.cells ++ ['\n'] :=
    (h.putsAt_begin hs).trans (w.flatMap_newKinds (fun new _ => (h.sectionAfter_any new hkinds).symm) fun new hnew => by
      rw [w.textOf_newKinds hnew]).symm
  have hrefill : textOf (w.refill k).cells =
      markerLine true k.isa ++ ((w.refilled k).flatMap Part.text ++ markerLine false k.isa) := by
    rw [Kind.textOf_cells, textOf, List.map_map]
    rfl
  calc piecesFrom g.editsInOrder offset (k.cells.map Cell.text)
      = putsAt g.editsInOrder offset ++ (replaced g.editsInOrder offset (markerLine true k.isa) ++
          piecesFrom g.editsInOrder (offset + (markerLine true k.isa).length)
            ((k.parts.map Cell.part).map Cell.text ++ [markerLine false k.isa])) := by
        rw [Kind.cells, List.map_cons, List.map_append]
        rfl
    _ = _ := by
        rw [hputs, hrefill, hparts]
        exact congrArg (_ ++ ·) (congrArg (· ++ _) hmarker)

theorem not_isDropped_of_sectionAfter (h : Rewrites L lead gap g) (hafter : g.sectionAfter isa = some s) :
    g.isDropped s = false := by
  rw [h.sectionAfter_eq] at hafter
  have hfound := List.find?_some hafter
  simpa using (Bool.and_eq_true_iff.mp hfound).2

/-- Nothing is put in front of the lines of a section that is taken out. -/
theorem putsAt_of_dropped (h : Rewrites L lead gap g) (hs : s ∈ g.sections) (hdropped : g.isDropped s = true)
    (hat : L.At n c) (hc : c.isa? = none ∨ c.isa? = some s.isa) : putsAt g.editsInOrder n = [] := by
  have hinside (hin : IsInside s.isa c) : putsAt g.editsInOrder n = [] := by
    have hnone : g.newcomers s.isa = [] := by
      rw [Graph.isDropped, Bool.and_eq_true, Option.isNone_iff_eq_none] at hdropped
      rw [Graph.newcomers, hdropped.2]
      exact List.mergeSort_nil
    rw [h.putsAt_inside hs hat hin, hnone]
    rfl
  cases c with
  | part p =>
    cases p with
    | filler f => exact h.putsAt_filler hat
    | object l => exact hinside (.inl ⟨l, rfl, Option.some.inj (hc.resolve_left (by simp [Cell.isa?]))⟩)
  | marker opens isa' =>
    obtain rfl : isa' = s.isa := Option.some.inj (hc.resolve_left (by simp [Cell.isa?]))
    cases opens with
    | false => exact hinside (.inr rfl)
    | true =>
      rw [h.putsAt_outside fun d isa hd hin => hin.ne_begin (at_unique hat hd)]
      refine List.flatMap_eq_nil_iff.mpr fun isa _ => ?_
      rw [Graph.newSectionAt]
      split
      next s' hafter =>
        -- New sections go in front of sections that are kept.
        rw [if_neg]
        rintro rfl
        have hs' := sectionAfter_mem hafter
        obtain rfl := h.eq_of_isa hs' hs (Cell.marker.inj (at_unique hat (h.begin_at hs'))).2
        rw [h.not_isDropped_of_sectionAfter hafter] at hdropped
        contradiction
      · rw [if_neg]
        rintro rfl
        exact h.not_at_lastLineStart _ hat

/-- The lines of a section that is taken out, and the blank line that goes with it, leave nothing. -/
theorem pieces_dropped (h : Rewrites L lead gap g) (hs : s ∈ g.sections) (hdropped : g.isDropped s = true)
    {cs ds es : List Cell} (hcells : L.cells = cs ++ (ds ++ es)) (hkinds : ∀ c ∈ ds, c.isa? = none ∨ c.isa? = some s.isa)
    (hstart : (g.dropSection s).start ≤ L.head.length + (textOf cs).length)
    (hstop : L.head.length + (textOf cs).length + (textOf ds).length ≤ (g.dropSection s).stop) :
    piecesFrom g.editsInOrder (L.head.length + (textOf cs).length) (ds.map Cell.text) = [] := by
  induction ds generalizing cs with
  | nil => rfl
  | cons d ds ih =>
    have hpos := d.text_length_pos
    have hlen : (textOf (cs ++ [d])).length = (textOf cs).length + d.text.length := by
      rw [textOf_append, List.length_append, textOf_cons, textOf_nil, List.append_nil]
    rw [textOf_cons, List.length_append] at hstop
    have hrest := ih (hcells.trans (List.append_cons cs d (ds ++ es))) (fun c hc => hkinds c (List.mem_cons_of_mem _ hc))
      (by omega) (by omega)
    rw [hlen, ← Nat.add_assoc] at hrest
    rw [List.map_cons, piecesFrom, hrest,
      h.putsAt_of_dropped hs hdropped ⟨cs, ds ++ es, hcells, rfl⟩ (hkinds d (List.mem_cons_self ..)),
      h.replaced_of_dropped hs hdropped ⟨hstart, by omega⟩]
    rfl

/-- Lines between sections stay where no section around them is taken out. -/
theorem pieces_fillers (h : Rewrites L lead gap g) {fs : List Filler} {cs ds : List Cell}
    (hcells : L.cells = cs ++ (cellsOf (fs.map .filler) ++ ds))
    (hfree : ∀ s ∈ g.sections, g.isDropped s = true → (g.dropSection s).stop ≤ L.head.length + (textOf cs).length ∨
      L.head.length + (textOf cs).length + (fillersText fs).length ≤ (g.dropSection s).start) :
    piecesFrom g.editsInOrder (L.head.length + (textOf cs).length) ((cellsOf (fs.map .filler)).map Cell.text) =
      fillersText fs := by
  induction fs generalizing cs with
  | nil => rfl
  | cons f fs ih =>
    have hpos : 0 < f.text.length := (Cell.part (.filler f)).text_length_pos
    have htext : fillersText (f :: fs) = f.text ++ fillersText fs := List.flatMap_cons
    have hcells : L.cells = cs ++ .part (.filler f) :: (cellsOf (fs.map .filler) ++ ds) := hcells
    have hat : L.At (L.head.length + (textOf cs).length) (.part (.filler f)) := ⟨cs, _, hcells, rfl⟩
    have hlen : (textOf (cs ++ [.part (.filler f)])).length = (textOf cs).length + f.text.length := by
      rw [textOf_append, List.length_append, textOf_cons, textOf_nil, List.append_nil]
      rfl
    rw [htext, List.length_append] at hfree
    have hrest := ih (hcells.trans (List.append_cons cs _ _)) fun s hs hdropped => by
      have := hfree s hs hdropped
      omega
    rw [hlen, ← Nat.add_assoc] at hrest
    have hstays := h.replaced_of_kept hat rfl fun s hs hdropped hcovers => by
      have := hfree s hs hdropped
      have := hcovers.1
      have := hcovers.2
      omega
    rw [htext]
    show putsAt g.editsInOrder _ ++ (replaced g.editsInOrder _ (Cell.part (.filler f)).text ++
      piecesFrom g.editsInOrder _ _) = _
    rw [h.putsAt_filler hat, hstays, List.nil_append]
    exact congrArg _ hrest

end Rewrites

end Xcode
end ModuleLink
