import ModuleLink.Proofs.Patch.RoundTrip
import ModuleLink.Proofs.Text.Occurrences

/-!
Texts stacked behind the only place of an anchor.  As long as the texts hold no other place of the anchor, and none of
them can be taken for another one, each can be put on the stack and taken out again, wherever it is by then.
-/

namespace ModuleLink
namespace Patch

open Text

namespace Anchor

variable {a : Anchor} {u v m cs text : List Char} {fresh : Bool}

/-! ## The only place -/

theorem freshBehind_append (fresh : Bool) (u v : List Char) :
    freshBehind fresh (u ++ v) = freshBehind (freshBehind fresh u) v := by
  induction u generalizing fresh with
  | nil => rfl
  | cons c u ih => exact ih (c == '\n')

theorem freshBehind_of_getLast {c : Char} (h : u.getLast? = some c) : freshBehind fresh u = (c == '\n') := by
  obtain ⟨t, rfl⟩ := List.getLast?_eq_some_iff.mp h
  rw [freshBehind_append]
  rfl

theorem freshBehind_of_notMem (hu : u ≠ []) (h : '\n' ∉ u) : freshBehind fresh u = false := by
  cases hlast : u.getLast? with
  | none => exact absurd (List.getLast?_eq_none_iff.mp hlast) hu
  | some c =>
    rw [freshBehind_of_getLast hlast, beq_eq_false_iff_ne]
    rintro rfl
    exact h (List.mem_of_getLast? hlast)

theorem placesFrom_busy (a : Anchor) (u v : List Char) (place : Nat) (fresh : Bool) :
    a.placesFrom place u.length fresh (u ++ v) = a.placesFrom (place + u.length) 0 (freshBehind fresh u) v := by
  induction u generalizing place fresh with
  | nil => rfl
  | cons c u ih =>
    rw [List.length_cons, List.cons_append, placesFrom, ih]
    · rw [freshBehind, Nat.add_assoc, Nat.add_comm 1]

/-- A piece that is not empty is passed over as a whole. -/
theorem placesFrom_piece (hm : m ≠ []) (place : Nat) (h : a.rest? fresh (m ++ v) = some v) :
    a.placesFrom place 0 fresh (m ++ v) =
      (place, place + m.length) :: a.placesFrom (place + m.length) 0 (freshBehind fresh m) v := by
  have hlen : a.length? fresh (m ++ v) = some m.length := by
    rw [length?, h]
    simp
  cases m with
  | nil => exact absurd rfl hm
  | cons c m =>
    rw [List.cons_append] at hlen ⊢
    rw [placesFrom, hlen]
    show _ :: a.placesFrom (place + 1) m.length (c == '\n') (m ++ v) = _
    rw [placesFrom_busy, freshBehind, List.length_cons, Nat.add_assoc, Nat.add_comm 1]

theorem placesFrom_pass (place : Nat)
    (h : ∀ u₁ u₂, u = u₁ ++ u₂ → u₂ ≠ [] → a.rest? (freshBehind fresh u₁) (u₂ ++ v) = none) :
    a.placesFrom place 0 fresh (u ++ v) = a.placesFrom (place + u.length) 0 (freshBehind fresh u) v := by
  induction u generalizing place fresh with
  | nil => rfl
  | cons c u ih =>
    have hhere : a.rest? fresh (c :: (u ++ v)) = none := h [] (c :: u) rfl (by simp)
    have hrest := ih (place + 1) fun u₁ u₂ e hne => h (c :: u₁) u₂ (by rw [e]; rfl) hne
    rw [List.cons_append, a.placesFrom_skip place hhere, hrest, freshBehind, List.length_cons, Nat.add_assoc,
      Nat.add_comm 1]

/-- The places of an anchor start inside the text. -/
theorem start_le_of_mem_placesFrom {place busy : Nat} {q : Nat × Nat} (h : q ∈ a.placesFrom place busy fresh cs) :
    q.1 ≤ place + cs.length := by
  fun_induction placesFrom a place busy fresh cs with
  | case1 place fresh n =>
    rw [List.mem_singleton.mp h]
    exact Nat.le_add_right _ _
  | case2 => contradiction
  | case3 => contradiction
  | case4 place k fresh c cs ih =>
    have hrest := ih h
    rw [List.length_cons]
    omega
  | case5 place fresh c cs n hlength ih =>
    rcases List.mem_cons.mp h with rfl | h
    · exact Nat.le_add_right _ _
    · have hrest := ih h
      rw [List.length_cons]
      omega
  | case6 place fresh c cs hlength ih =>
    have hrest := ih h
    rw [List.length_cons]
    omega

theorem start_le_of_mem_places {q : Nat × Nat} (h : q ∈ a.places cs) : q.1 ≤ cs.length := by
  have hstart := start_le_of_mem_placesFrom h
  rwa [Nat.zero_add] at hstart

theorem rest?_eq_none_of_placesFrom (place : Nat) (h : a.placesFrom place 0 fresh cs = []) :
    a.rest? fresh cs = none := by
  by_contra hne
  obtain ⟨r, hr⟩ := Option.ne_none_iff_exists'.mp hne
  obtain ⟨m, rfl, -, -⟩ := a.takes_rest? _ _ _ hr
  obtain ⟨rest, hrest⟩ := a.placesFrom_here place hr
  rw [hrest] at h
  contradiction

/-- There is no place of the anchor if its reader takes nothing anywhere. -/
theorem placesFrom_eq_nil_iff (a : Anchor) (place : Nat) (fresh : Bool) (cs : List Char) :
    a.placesFrom place 0 fresh cs = [] ↔ ∀ u v, cs = u ++ v → a.rest? (freshBehind fresh u) v = none := by
  constructor
  · intro h u v hcs
    induction u generalizing place fresh cs with
    | nil =>
      rw [hcs] at h
      exact rest?_eq_none_of_placesFrom place h
    | cons c u ih =>
      have hhere := rest?_eq_none_of_placesFrom place h
      rw [hcs, List.cons_append] at h hhere
      rw [a.placesFrom_skip place hhere] at h
      exact ih (place + 1) (c == '\n') (u ++ v) h rfl
  · intro h
    induction cs generalizing place fresh with
    | nil =>
      have hnone : a.rest? fresh [] = none := h [] [] rfl
      rw [placesFrom, length?, hnone]
      rfl
    | cons c cs ih =>
      have hhere : a.rest? fresh (c :: cs) = none := h [] (c :: cs) rfl
      rw [a.placesFrom_skip place hhere]
      exact ih _ _ fun u v e => h (c :: u) v (by rw [e]; rfl)

/-- The text `u ++ (m ++ v)` has its only place of the anchor at `m`. -/
structure OnlyPlace (a : Anchor) (u m v : List Char) : Prop where
  first : a.FirstPlace true u m v
  nonempty : m ≠ []
  notBehind : ∀ v₁ v₂, v = v₁ ++ v₂ → a.rest? (freshBehind true (u ++ m ++ v₁)) v₂ = none

theorem OnlyPlace.places (h : a.OnlyPlace u m v) :
    a.places (u ++ (m ++ v)) = [(u.length, (u ++ m).length)] := by
  have hrest : a.placesFrom (u ++ m).length 0 (freshBehind true (u ++ m)) v = [] :=
    (a.placesFrom_eq_nil_iff _ _ _).mpr fun v₁ v₂ e => by
      rw [← freshBehind_append]
      exact h.notBehind v₁ v₂ e
  rw [Anchor.places, placesFrom_pass 0 h.first.notBefore, placesFrom_piece h.nonempty _ h.first.here, Nat.zero_add,
    ← List.length_append, ← freshBehind_append, hrest]

theorem exists_onlyPlace (hne : ∀ x, a.Piece x → x ≠ []) (h : (a.places cs).length = 1) :
    ∃ u m v, cs = u ++ (m ++ v) ∧ a.OnlyPlace u m v := by
  obtain ⟨⟨s, e⟩, hse⟩ := List.length_eq_one_iff.mp h
  obtain ⟨u, m, v, rfl, -, -, hfirst⟩ := a.placesFrom_eq_cons hse
  obtain ⟨x, hx, hpiece, -⟩ := a.takes_rest? _ _ _ hfirst.here
  obtain rfl : m = x := List.append_cancel_right hx
  refine ⟨u, m, v, rfl, hfirst, hne m hpiece, fun v₁ v₂ e => ?_⟩
  rw [Anchor.places, placesFrom_pass 0 hfirst.notBefore, placesFrom_piece (hne m hpiece) _ hfirst.here,
    List.cons.injEq] at hse
  rw [← freshBehind_append] at hse
  rw [freshBehind_append]
  exact (a.placesFrom_eq_nil_iff _ _ _).mp hse.2 v₁ v₂ e

/-- A text put behind the only place leaves it the only one, if the reader takes nothing inside the text and lines
start behind the text where they did before. -/
theorem OnlyPlace.insert (h : a.OnlyPlace u m v)
    (hquiet : ∀ t₁ t₂, text = t₁ ++ t₂ → t₂ ≠ [] → a.rest? (freshBehind true (u ++ m ++ t₁)) (t₂ ++ v) = none)
    (hfresh : ∀ cs, a.rest? (freshBehind true (u ++ m ++ text)) cs = a.rest? (freshBehind true (u ++ m)) cs) :
    a.OnlyPlace u m (text ++ v) := by
  refine ⟨h.first.insert text, h.nonempty, fun v₁ v₂ e => ?_⟩
  rcases List.append_eq_append_iff.mp e with ⟨w, rfl, hv⟩ | ⟨t₂, rfl, rfl⟩
  · have hnone := h.notBehind w v₂ hv
    cases hw : w.getLast? with
    | none =>
      obtain rfl := List.getLast?_eq_none_iff.mp hw
      rw [List.append_nil] at hnone ⊢
      rw [hfresh]
      exact hnone
    | some c =>
      have hlast (t : List Char) : (t ++ w).getLast? = some c := by rw [List.getLast?_append, hw]; rfl
      rw [freshBehind_of_getLast (hlast _)] at hnone
      rw [← List.append_assoc, freshBehind_of_getLast (hlast _)]
      exact hnone
  · by_cases ht : t₂ = []
    · subst ht
      rw [List.append_nil] at hfresh
      rw [hfresh]
      have hnone := h.notBehind [] v rfl
      rw [List.append_nil] at hnone
      exact hnone
    · exact hquiet v₁ t₂ rfl ht

theorem OnlyPlace.piece (h : a.OnlyPlace u m v) : a.Piece m := by
  obtain ⟨x, hx, hpiece, -⟩ := a.takes_rest? _ _ _ h.first.here
  obtain rfl : m = x := List.append_cancel_right hx
  exact hpiece

/-- Whole lines behind the only place leave it the only one, if the reader takes nothing inside them. -/
theorem OnlyPlace.insert_lines {ι : Type} {block : ι → List Char} (h : a.OnlyPlace u m v)
    (hplace : (u ++ m).getLast? = some '\n')
    (hlines : ∀ i, block i ≠ [] → (block i).getLast? = some '\n')
    (hquiet : ∀ i t₁ t₂ w, block i = t₁ ++ t₂ → t₂ ≠ [] → a.rest? (freshBehind true t₁) (t₂ ++ w) = none)
    (is : List ι) : a.OnlyPlace u m (is.flatMap block ++ v) := by
  have hstart : freshBehind true (u ++ m) = true := freshBehind_of_getLast hplace
  induction is with
  | nil => exact h
  | cons i is ih =>
    rw [List.flatMap_cons, List.append_assoc]
    refine ih.insert (fun t₁ t₂ e hne => ?_) fun cs => ?_
    · rw [freshBehind_append, hstart]
      exact hquiet i t₁ t₂ _ e hne
    · rw [freshBehind_append, hstart]
      by_cases hblock : block i = []
      · rw [hblock]
        rfl
      · rw [freshBehind_of_getLast (hlines i hblock)]
        rfl

/-- The content with a text right behind the only place of the anchor. -/
def behind (a : Anchor) (text content : List Char) : List Char :=
  match a.places content with
  | [(_, stop)] => content.take stop ++ text ++ content.drop stop
  | _ => content

theorem OnlyPlace.behind (h : a.OnlyPlace u m v) (text : List Char) :
    a.behind text (u ++ (m ++ v)) = u ++ (m ++ (text ++ v)) := by
  rw [Anchor.behind, h.places]
  show (u ++ (m ++ v)).take _ ++ text ++ (u ++ (m ++ v)).drop _ = _
  rw [← List.append_assoc u, List.take_left, List.drop_left]
  simp only [List.append_assoc]

/-! ## Lines that start with a word -/

theorem after?_eq_none_of_head {c d : Char} {p : List Char} (h : c ≠ d) : after? (d :: p) (c :: cs) = none := by
  rw [after?, if_neg (Ne.symm h)]

theorem rest?_dependenciesLine_of_head {c : Char} (hc : c ≠ 'd') :
    dependenciesLine.rest? fresh (c :: cs) = none := by
  have hword : "dependencies".toList = 'd' :: "ependencies".toList := by decide
  rw [rest?, hword, after?_eq_none_of_head hc]
  cases fresh <;> rfl

theorem rest?_includeLine_of_head {app : String} {c : Char} (hc : c ≠ 'i') :
    (includeLine app).rest? fresh (c :: cs) = none := by
  have hword : "include".toList = 'i' :: "nclude".toList := by decide
  rw [rest?, hword, after?_eq_none_of_head hc]
  cases fresh <;> rfl

theorem rest?_resourcesTag_of_second {c : Char} (hc : c ≠ 'r') : resourcesTag.rest? fresh ('<' :: c :: cs) = none := by
  have hword : "<resources".toList = '<' :: 'r' :: "esources".toList := by decide
  rw [rest?, hword, after?, if_pos rfl, after?_eq_none_of_head hc]
  rfl

theorem rest?_resourcesTag_of_head {c : Char} (hc : c ≠ '<') : resourcesTag.rest? fresh (c :: cs) = none := by
  have hword : "<resources".toList = '<' :: "resources".toList := by decide
  rw [rest?, hword, after?_eq_none_of_head hc]
  rfl

theorem rest?_targetLine_of_head {target : String} {c : Char} (hskip : skipGaps text = c :: cs) (hc : c ≠ 't') :
    (targetLine target).rest? fresh text = none := by
  have hword : "target".toList = 't' :: "arget".toList := by decide
  rw [rest?, hskip, hword, after?_eq_none_of_head hc]
  cases fresh <;> rfl

theorem takes_lineEnd?_blank : Takes lineEnd? fun x => ∀ c ∈ x, isBlank c = true := by
  have hend := ((takes_after? ['\n']).optional '\r' (by simp)).skipGaps (by rintro x (rfl | ⟨y, rfl, -⟩) <;> simp)
  refine hend.mono ?_
  rintro x ⟨g, y, rfl, hg, hy⟩ c hc
  rcases List.mem_append.mp hc with hc | hc
  · have hgap := hg c hc
    rw [isGap, Bool.or_eq_true, beq_iff_eq, beq_iff_eq] at hgap
    rcases hgap with rfl | rfl <;> decide
  · rcases hy with rfl | ⟨y, rfl, rfl⟩
    · rw [List.mem_singleton.mp hc]
      decide
    · rcases List.mem_cons.mp hc with rfl | hc
      · decide
      · rw [List.mem_singleton.mp hc]
        decide

/-- Nothing but blank characters follows the brace in the line that opens the dependencies. -/
theorem takes_dependenciesLine (fresh : Bool) :
    Takes (dependenciesLine.rest? fresh) fun x => ∃ l g, x = l ++ '\x7b' :: g ∧ ∀ c ∈ g, isBlank c = true := by
  cases fresh with
  | false =>
    intro cs r h
    simp [rest?] at h
  | true =>
    have hbrace := ((takes_after? ['\x7b']).bind takes_lineEnd?_blank).skipGaps (by
      rintro x ⟨a, b, rfl, rfl, -⟩
      simp)
    have h := (takes_after? "dependencies".toList).bind hbrace
    refine Takes.mono (k := dependenciesLine.rest? true) h ?_
    rintro x ⟨a, b, rfl, -, g, y, rfl, -, c, d, rfl, rfl, hd⟩
    exact ⟨a ++ g, d, by simp, hd⟩

/-- Nothing but blank characters follows the last word in the line that opens a target. -/
theorem takes_targetLine (target : String) (fresh : Bool) :
    Takes ((targetLine target).rest? fresh) fun x => ∃ l g, x = l ++ 'o' :: g ∧ ∀ c ∈ g, isBlank c = true := by
  cases fresh with
  | false =>
    intro cs r h
    simp [rest?] at h
  | true =>
    have hdo := ((takes_after? "do".toList).bind takes_lineEnd?_blank).gaps (by
      rintro x ⟨a, b, rfl, rfl, -⟩
      simp)
    have hname := ((takes_quoted? target.toList).bind hdo).gaps (by
      rintro x ⟨a, b, rfl, ha, -⟩
      simp [ha.ne_nil])
    have h := ((takes_after? "target".toList).bind hname).skipGaps (by
      rintro x ⟨a, b, rfl, rfl, -⟩
      simp)
    refine Takes.mono (k := (targetLine target).rest? true) h ?_
    rintro x ⟨g₁, _, rfl, -, _, _, rfl, rfl, g₂, _, rfl, -, y, _, rfl, -, g₃, _, rfl, -, _, d, rfl, rfl, hd⟩
    have hword : "do".toList = ['d', 'o'] := by decide
    refine ⟨g₁ ++ ("target".toList ++ (g₂ ++ (y ++ (g₃ ++ ['d'])))), d, ?_, hd⟩
    rw [hword]
    simp only [List.append_assoc, List.cons_append, List.nil_append]

/-! ## Texts as anchors -/

theorem onlyPlace_literal {s : String} (hs : s.toList ≠ []) (h : hits s.toList (u ++ (s.toList ++ v)) = 1) :
    (literal s).OnlyPlace u s.toList v := by
  have honly {x y : List Char} (e : u ++ (s.toList ++ v) = x ++ (s.toList ++ y)) : x = u :=
    eq_of_hits_eq_one hs h rfl e
  refine ⟨⟨after?_append _ _, fun u₁ u₂ hu hne => ?_⟩, hs, fun v₁ v₂ hv => ?_⟩
  · by_contra hsome
    obtain ⟨r, hr⟩ := Option.ne_none_iff_exists'.mp hsome
    have hsame := honly (x := u₁) (y := r) (by rw [← after?_eq_some_iff.mp hr, hu]; simp)
    rw [hsame] at hu
    exact hne (List.append_right_eq_self.mp hu.symm)
  · by_contra hsome
    obtain ⟨r, hr⟩ := Option.ne_none_iff_exists'.mp hsome
    have hsame := honly (x := u ++ s.toList ++ v₁) (y := r) (by rw [hv, after?_eq_some_iff.mp hr]; simp)
    rw [List.append_assoc] at hsame
    exact hs (List.append_eq_nil_iff.mp (List.append_right_eq_self.mp hsame)).1

/-- A text that does not overlap with itself stands at its only place and nowhere else. -/
theorem hits_of_onlyPlace_literal {s : String} (hs : NotAcross s.toList s.toList)
    (h : (literal s).OnlyPlace u m v) : m = s.toList ∧ hits s.toList (u ++ (s.toList ++ v)) = 1 := by
  have hm : m ++ v = s.toList ++ v := after?_eq_some_iff.mp h.first.here
  obtain rfl : m = s.toList := List.append_cancel_right hm
  have hnone {f : Bool} {r cs : List Char} (hcs : cs = s.toList ++ r) : ¬(literal s).rest? f cs = none := by
    rw [hcs, show (literal s).rest? f (s.toList ++ r) = some r from after?_append _ _]
    simp
  refine ⟨rfl, hits_eq_one h.nonempty rfl fun x y e => ?_⟩
  by_contra hne
  rcases List.append_eq_append_iff.mp e with ⟨w, rfl, hw⟩ | ⟨u₂, rfl, hu₂⟩
  · rcases List.append_eq_append_iff.mp hw with ⟨z, -, hz⟩ | ⟨z, hz, hzy⟩
    · exact hnone rfl (h.notBehind z _ hz)
    · -- The two places overlap.
      have hw_nonempty : w ≠ [] := fun hw => hne (by rw [hw, List.append_nil])
      have hlength := congrArg List.length hz
      have hpos := List.length_pos_iff.mpr hw_nonempty
      rw [List.length_append] at hlength
      by_cases hz_nil : z = []
      · exact hnone rfl (h.notBehind [] _ (by rw [List.nil_append, hzy, hz_nil, List.nil_append]))
      · rcases List.append_eq_append_iff.mp hzy with ⟨z', hz', -⟩ | ⟨z', hz', -⟩
        · have := congrArg List.length hz'
          rw [List.length_append] at this
          omega
        · refine hs z z' hz' hz_nil ?_ ⟨w, hz.symm⟩
          rintro rfl
          rw [List.append_nil] at hz'
          rw [← hz'] at hlength
          omega
  · have hu₂_nonempty : u₂ ≠ [] := fun hu₂ => hne (by rw [hu₂, List.append_nil])
    exact hnone hu₂.symm (h.first.notBefore x u₂ rfl hu₂_nonempty)

end Anchor

namespace Insertion

variable {p : Insertion} {a : Anchor} {path : String} {content u m v x y : List Char}

/-! ## One insertion -/

theorem apply_of_onlyPlace (hp : p.IsBehind a) (hempty : p.isEmpty = false) (h : a.OnlyPlace u m v)
    (hfresh : p.isIn (u ++ (m ++ v)) = false) :
    p.apply path (u ++ (m ++ v)) = .ok (some (u ++ (m ++ (p.chars ++ v)))) := by
  rw [apply_eq hp (by rw [hempty, hfresh]; rfl), h.places]
  show Except.ok (some (p.insertAt (u ++ (m ++ v)) (u ++ m).length)) = _
  rw [insertAt, ← List.append_assoc u, List.take_left, List.drop_left]
  simp only [List.append_assoc]

theorem besides?_eq_some {s e n : Nat} (hs : s ≤ content.length) (h : p.besides? content s e = some n) :
    ∃ r, content = content.take n ++ (p.chars ++ r) := by
  rw [besides?] at h
  split at h
  · split at h
    next hstart =>
      obtain rfl := Option.some.inj h
      obtain ⟨r, hr⟩ := startsWith_iff.mp hstart
      exact ⟨r, by rw [← hr, List.take_append_drop]⟩
    · contradiction
  · split at h
    next hend =>
      obtain ⟨l, hl⟩ := endsWith_iff.mp hend
      have hlength := congrArg List.length hl
      rw [List.length_take, List.length_append, Nat.min_eq_left hs] at hlength
      obtain rfl : l.length = n := by
        rw [← Option.some.inj h, hlength, Nat.add_sub_cancel]
      have hcontent : content = l ++ (p.chars ++ content.drop s) := by
        rw [← List.append_assoc, ← hl, List.take_append_drop]
      refine ⟨content.drop s, ?_⟩
      rw [hcontent, List.take_left, ← hcontent]
      exact hcontent
    · contradiction

/-- The insertion goes to the end, or next to an anchor. -/
def IsPlaced (p : Insertion) : Prop := p.relation = .append ∨ ∃ a, p.anchor = some a

theorem IsBehind.isPlaced (hp : p.IsBehind a) : p.IsPlaced := .inr ⟨a, hp.anchor⟩

/-- Where the text of an insertion stands once, it is taken out there, next to the anchor or not. -/
theorem revert_of_hits (hp : p.IsPlaced) (hempty : p.isEmpty = false) (hcontent : content = x ++ (p.chars ++ y))
    (hone : hits p.chars content = 1) : p.revert content = .ok (.removed (x ++ y)) := by
  have hchars : p.chars ≠ [] := by simpa [Insertion.isEmpty, Insertion.chars] using hempty
  have hin : p.isIn content = true := isIn_iff.mpr ⟨x, y, by rw [hcontent, List.append_assoc]⟩
  have honly : p.onlyPlace? content = some x.length := by
    rw [onlyPlace?, if_pos (count_of_hits_eq_one hone), indexOf?_of_hits_eq_one hchars hone hcontent]
  have hbesides {s e n : Nat} (hs : s ≤ content.length) (hn : p.besides? content s e = some n) : n = x.length := by
    obtain ⟨r, hr⟩ := besides?_eq_some hs hn
    have hlength := congrArg List.length hr
    have hpos := List.length_pos_iff.mpr hchars
    simp only [List.length_append, List.length_take] at hlength
    rw [← eq_of_hits_eq_one hchars hone hcontent hr, List.length_take]
    omega
  have hlocate : p.locate content = .ok (some x.length) := by
    rw [locate, hin, if_neg (by simp)]
    split
    · split
      next hend =>
        -- The text at the end of the content is the one that was inserted.
        obtain ⟨l, hl⟩ := endsWith_iff.mp hend
        have hl' : content = l ++ (p.chars ++ []) := by rw [List.append_nil, hl]
        obtain rfl := eq_of_hits_eq_one hchars hone hcontent hl'
        rw [hl, List.length_append, Nat.add_sub_cancel]
      · rw [honly]
    next hrelation =>
      obtain ⟨a, ha⟩ := hp.resolve_left hrelation
      rw [requireAnchor, ha]
      simp only [bind, Except.bind]
      split
      next n hn =>
        obtain ⟨q, hq, hbeside⟩ := List.exists_of_findSome?_eq_some hn
        rw [hbesides (Anchor.start_le_of_mem_places hq) hbeside]
      · rw [honly]
  rw [Insertion.revert, hempty, hlocate]
  show Except.ok (Reversal.removed (p.removeAt content x.length)) = _
  rw [removeAt, ← List.length_append, hcontent, List.take_left, ← List.append_assoc, List.drop_left]

end Insertion

/-! ## Stacks -/

section Stack

variable {ι : Type} [DecidableEq ι] {block : ι → List Char} {pre post : List Char} {is : List ι} {k : ι}
  {p : Insertion} {a : Anchor} {path : String}

/-- Whichever blocks are put between two texts, the only place of the anchor is right before them, and none of them
stands anywhere else.  A block is told from the others by what it starts with. -/
structure Stack (a : Anchor) (block : ι → List Char) (pre post : List Char) : Prop where
  place : ∃ u m, pre = u ++ m ∧ ∀ is : List ι, a.OnlyPlace u m (is.flatMap block ++ post)
  mark : ∀ k, block k ≠ [] → ∃ mark, mark ≠ [] ∧ mark <+: block k ∧
    ∀ is : List ι, hits mark (pre ++ (is.flatMap block ++ post)) = is.count k

theorem Stack.isIn_iff (h : Stack a block pre post) (hk : p.chars = block k) (hempty : p.isEmpty = false)
    (is : List ι) : p.isIn (pre ++ (is.flatMap block ++ post)) = true ↔ k ∈ is := by
  have hne : block k ≠ [] := by
    rw [← hk]
    simpa [Insertion.isEmpty, Insertion.chars] using hempty
  obtain ⟨mark, hmark, hprefix, hhits⟩ := h.mark k hne
  rw [Insertion.isIn, hk, occursIn_iff_infix]
  constructor
  · intro hin
    have hpos : hits mark (pre ++ (is.flatMap block ++ post)) ≠ 0 := by
      rw [Ne, hits_eq_zero_iff hmark, not_not]
      exact hprefix.isInfix.trans hin
    rw [hhits] at hpos
    exact List.count_pos_iff.mp (Nat.pos_of_ne_zero hpos)
  · intro hmem
    obtain ⟨l₁, l₂, rfl⟩ := List.append_of_mem hmem
    exact ⟨pre ++ l₁.flatMap block, l₂.flatMap block ++ post, by simp⟩

/-- A block that is there is left as it is. -/
theorem Stack.apply_of_mem (h : Stack a block pre post) (hk : p.chars = block k) (hempty : p.isEmpty = false)
    (hmem : k ∈ is) : p.apply path (pre ++ (is.flatMap block ++ post)) = .ok none :=
  Insertion.apply_eq_none (by rw [(h.isIn_iff hk hempty is).mpr hmem, Bool.or_true])

/-- A new block goes on top. -/
theorem Stack.apply_of_notMem (h : Stack a block pre post) (hp : p.IsBehind a) (hk : p.chars = block k)
    (hempty : p.isEmpty = false) (hmem : k ∉ is) :
    p.apply path (pre ++ (is.flatMap block ++ post)) = .ok (some (pre ++ ((k :: is).flatMap block ++ post))) := by
  have hfresh : p.isIn (pre ++ (is.flatMap block ++ post)) = false := by
    rw [Bool.eq_false_iff, Ne, h.isIn_iff hk hempty]
    exact hmem
  obtain ⟨u, m, rfl, hplace⟩ := h.place
  rw [List.append_assoc] at hfresh ⊢
  rw [Insertion.apply_of_onlyPlace hp hempty (hplace is) hfresh, hk]
  simp only [List.flatMap_cons, List.append_assoc]

/-- A block is taken out wherever it is. -/
theorem Stack.revert_of_mem (h : Stack a block pre post) (hp : p.IsBehind a) (hk : p.chars = block k)
    (hempty : p.isEmpty = false) (hmem : k ∈ is) (hnodup : is.Nodup) :
    p.revert (pre ++ (is.flatMap block ++ post)) = .ok (.removed (pre ++ ((is.erase k).flatMap block ++ post))) := by
  have hne : block k ≠ [] := by
    rw [← hk]
    simpa [Insertion.isEmpty, Insertion.chars] using hempty
  obtain ⟨mark, hmark, ⟨r, hr⟩, hhits⟩ := h.mark k hne
  obtain ⟨l₁, l₂, rfl⟩ := List.append_of_mem hmem
  have hcount : hits mark (pre ++ ((l₁ ++ k :: l₂).flatMap block ++ post)) = 1 := by
    rw [hhits]
    exact List.count_eq_one_of_mem hnodup hmem
  have hsplit : pre ++ ((l₁ ++ k :: l₂).flatMap block ++ post) =
      (pre ++ l₁.flatMap block) ++ (block k ++ (l₂.flatMap block ++ post)) := by simp
  have hone : hits p.chars (pre ++ ((l₁ ++ k :: l₂).flatMap block ++ post)) = 1 := by
    rw [hk]
    refine hits_eq_one hne hsplit fun x y e => ?_
    rw [← hr, List.append_assoc mark] at e hsplit
    exact eq_of_hits_eq_one hmark hcount hsplit e
  have herase : (l₁ ++ k :: l₂).erase k = l₁ ++ l₂ := by
    have hnotMem : k ∉ l₁ := fun hk₁ => (List.nodup_append.mp hnodup).2.2 k hk₁ k (by simp) rfl
    rw [List.erase_append_right _ hnotMem, List.erase_cons_head]
  rw [← hk] at hsplit
  rw [Insertion.revert_of_hits hp.isPlaced hempty hsplit hone, herase]
  simp only [List.flatMap_append, List.append_assoc]

theorem Stack.behind (h : Stack a block pre post) (is : List ι) :
    a.behind (is.flatMap block) (pre ++ post) = pre ++ (is.flatMap block ++ post) := by
  obtain ⟨u, m, rfl, hplace⟩ := h.place
  have hnone : a.OnlyPlace u m post := hplace []
  rw [List.append_assoc, hnone.behind, List.append_assoc]

end Stack

/-! ## Lines -/

/-- A text that ends in its only line end. -/
def IsLine (x : List Char) : Prop := ∃ l, x = l ++ ['\n'] ∧ '\n' ∉ l

section Line

variable {x t₁ t₂ : List Char} {a : Anchor}

theorem IsLine.ne_nil (hx : IsLine x) : x ≠ [] := by
  obtain ⟨l, rfl, -⟩ := hx
  simp

theorem IsLine.getLast? (hx : IsLine x) : x.getLast? = some '\n' := by
  obtain ⟨l, rfl, -⟩ := hx
  rw [List.getLast?_concat]

theorem IsLine.notMem_dropLast (hx : IsLine x) : '\n' ∉ x.dropLast := by
  obtain ⟨l, rfl, hl⟩ := hx
  rw [List.dropLast_concat]
  exact hl

theorem IsLine.notMem_front (hx : IsLine x) (h : x = t₁ ++ t₂) (hne : t₂ ≠ []) : '\n' ∉ t₁ := by
  have hdropLast := hx.notMem_dropLast
  rw [h, List.dropLast_append_of_ne_nil hne] at hdropLast
  exact fun hmem => hdropLast (List.mem_append_left _ hmem)

/-- An anchor that starts at the start of a line only is looked for at the start of a line only. -/
theorem IsLine.rest?_eq_none (hx : IsLine x) (hfresh : ∀ cs, a.rest? false cs = none)
    (hstart : ∀ w, a.rest? true (x ++ w) = none) (h : x = t₁ ++ t₂) (hne : t₂ ≠ []) (w : List Char) :
    a.rest? (Anchor.freshBehind true t₁) (t₂ ++ w) = none := by
  by_cases ht₁ : t₁ = []
  · subst ht₁
    rw [List.nil_append] at h
    rw [← h]
    exact hstart w
  · rw [Anchor.freshBehind_of_notMem ht₁ (hx.notMem_front h hne)]
    exact hfresh _

/-- Lines of which none stands in another one make up a stack behind the only place of an anchor that is a line itself
and is no part of them. -/
theorem stack_of_isLine {ι : Type} [DecidableEq ι] {line : ι → List Char} {u m v : List Char} (h : a.OnlyPlace u m v)
    (hplace : m.getLast? = some '\n') (hline : ∀ i, IsLine (line i)) (hfresh : ∀ cs, a.rest? false cs = none)
    (hstart : ∀ i w, a.rest? true (line i ++ w) = none)
    (hhits : ∀ i k, hits (line k) (line i) = if i = k then 1 else 0)
    (hbase : ∀ i, occursIn (line i) (u ++ m ++ v) = false) : Stack a line (u ++ m) v := by
  have hend : (u ++ m).getLast? = some '\n' := by
    rw [List.getLast?_append, hplace]
    rfl
  refine ⟨⟨u, m, rfl, h.insert_lines hend (fun i _ => (hline i).getLast?) fun i t₁ t₂ w e hne =>
    (hline i).rest?_eq_none hfresh (hstart i) e hne w⟩, fun k hne => ?_⟩
  refine ⟨line k, hne, List.prefix_refl _, fun is => ?_⟩
  exact hits_between_eq_count hne (hbase k) (notAcross_of_getLast (hline k).notMem_dropLast hend)
    (fun i _ => notAcross_of_getLast (hline k).notMem_dropLast (hline i).getLast?) fun i _ => hhits i k

end Line

end Patch
end ModuleLink
