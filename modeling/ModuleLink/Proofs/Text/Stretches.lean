import ModuleLink.Proofs.Text.Edits

/-!
A text that is cut into stretches, some of which are replaced.  Edits that each replace one stretch can be made in
whatever order they come, and what stands outside these stretches stays.
-/

namespace ModuleLink
namespace Text

/-- From the place `n` on, the second text is the first one, but for some stretches that hold something else. -/
inductive SameOutside (stretch : Nat → Nat → Prop) : Nat → List Char → List Char → Prop
  | nil {n : Nat} : SameOutside stretch n [] []
  | same {n : Nat} {c : Char} {t u : List Char} : SameOutside stretch (n + 1) t u →
      SameOutside stretch n (c :: t) (c :: u)
  | replaced {n : Nat} {old new t u : List Char} : stretch n (n + old.length) →
      SameOutside stretch (n + old.length) t u → SameOutside stretch n (old ++ t) (new ++ u)

section SameOutside

variable {stretch stretch' : Nat → Nat → Prop} {n : Nat} {t u : List Char}

theorem SameOutside.append {p : List Char} (h : SameOutside stretch (n + p.length) t u) :
    SameOutside stretch n (p ++ t) (p ++ u) := by
  induction p generalizing n with
  | nil => exact h
  | cons c p ih =>
    refine .same (ih ?_)
    rwa [List.length_cons, Nat.add_comm p.length 1, ← Nat.add_assoc] at h

theorem SameOutside.refl (t : List Char) : SameOutside stretch n t t := by
  have h : SameOutside stretch n (t ++ []) (t ++ []) := .append .nil
  rwa [List.append_nil] at h

theorem SameOutside.mono (hsub : ∀ a b, stretch a b → stretch' a b) (h : SameOutside stretch n t u) :
    SameOutside stretch' n t u := by
  induction h with
  | nil => exact .nil
  | same _ ih => exact .same ih
  | replaced hstretch _ ih => exact .replaced (hsub _ _ hstretch) ih

end SameOutside

/-- A stretch of a text, what stands between the one before and this one, and what takes its place if anything does. -/
structure Stretch where
  lead : List Char
  old : List Char
  new? : Option (List Char)

namespace Stretch

def before (ss : List Stretch) : List Char := ss.flatMap fun s => s.lead ++ s.old

def after (ss : List Stretch) : List Char := ss.flatMap fun s => s.lead ++ s.new?.getD s.old

/-- The edits of the stretches that are replaced, in a text that goes on with the stretches at `n`. -/
def edits : (n : Nat) → List Stretch → List Edit
  | _, [] => []
  | n, s :: ss =>
    (s.new?.toList.map fun new => ⟨n + s.lead.length, n + s.lead.length + s.old.length, new⟩) ++
      edits (n + s.lead.length + s.old.length) ss

variable {ss : List Stretch} {s : Stretch} {es : List Edit} {e : Edit} {n cursor : Nat} {pre post : List Char}

@[simp] theorem before_cons (s : Stretch) (ss : List Stretch) : before (s :: ss) = s.lead ++ s.old ++ before ss := by
  rw [before, List.flatMap_cons]
  rfl

@[simp] theorem after_cons (s : Stretch) (ss : List Stretch) :
    after (s :: ss) = s.lead ++ s.new?.getD s.old ++ after ss := by
  rw [after, List.flatMap_cons]
  rfl

theorem edits_cons_none (h : s.new? = none) :
    edits n (s :: ss) = edits (n + s.lead.length + s.old.length) ss := by
  rw [edits, h]
  rfl

theorem edits_cons_some {new : List Char} (h : s.new? = some new) :
    edits n (s :: ss) = ⟨n + s.lead.length, n + s.lead.length + s.old.length, new⟩ ::
      edits (n + s.lead.length + s.old.length) ss := by
  rw [edits, h]
  rfl

/-- Each edit is behind those before it, and takes something away. -/
theorem edits_pairwise (h : ∀ s ∈ ss, s.old ≠ []) :
    (∀ e ∈ edits n ss, n ≤ e.start ∧ e.start < e.stop) ∧ (edits n ss).Pairwise fun a b => a.start < b.start := by
  induction ss generalizing n with
  | nil => exact ⟨by simp [edits], .nil⟩
  | cons s ss ih =>
    have hpos : 0 < s.old.length := List.length_pos_iff.mpr (h s (by simp))
    obtain ⟨hbounds, hpairwise⟩ := @ih (n + s.lead.length + s.old.length) fun x hx => h x (by simp [hx])
    cases hnew : s.new? with
    | none =>
      rw [edits_cons_none hnew]
      refine ⟨fun e he => ?_, hpairwise⟩
      have := hbounds e he
      omega
    | some new =>
      rw [edits_cons_some hnew]
      refine ⟨fun e he => ?_, List.pairwise_cons.mpr ⟨fun e he => ?_, hpairwise⟩⟩
      · rcases List.mem_cons.mp he with rfl | he
        · dsimp only
          omega
        · have := hbounds e he
          omega
      · have := hbounds e he
        dsimp only
        omega

/-- Edits that come in any order are made in the order of the stretches. -/
theorem mergeSort_eq_edits (h : ∀ s ∈ ss, s.old ≠ []) (hes : es.Perm (edits n ss)) :
    es.mergeSort Edit.before = edits n ss := by
  obtain ⟨-, hpairwise⟩ := edits_pairwise (n := n) h
  have hperm : (es.mergeSort Edit.before).Perm (edits n ss) := (List.mergeSort_perm es Edit.before).trans hes
  have hnodup : ((edits n ss).map Edit.start).Nodup := List.pairwise_map.mpr (hpairwise.imp Nat.ne_of_lt)
  refine hperm.eq_of_pairwise (fun a b ha hb hab hba => ?_) (pairwise_mergeSort_before es)
    (hpairwise.imp fun {a b} hlt => ?_)
  · refine List.inj_on_of_nodup_map hnodup (hperm.mem_iff.mp ha) hb ?_
    simp only [Edit.before, Bool.or_eq_true, Bool.and_eq_true, decide_eq_true_eq, beq_iff_eq] at hab hba
    omega
  · simp only [Edit.before, Bool.or_eq_true, decide_eq_true_eq]
    exact .inl hlt

/-- The cursor of the edits may stand anywhere in what is kept in front of the first stretch. -/
theorem splice_edits (ss : List Stretch) (pending post : List Char) (n : Nat) :
    splice n (pending ++ before ss ++ post) (edits (n + pending.length) ss) = .ok (pending ++ after ss ++ post) := by
  induction ss generalizing pending n with
  | nil => rfl
  | cons s ss ih =>
    cases hnew : s.new? with
    | none =>
      have hrest := ih (pending ++ s.lead ++ s.old) n
      rw [edits_cons_none hnew, before_cons, after_cons, hnew]
      simpa only [List.append_assoc, List.length_append, Nat.add_assoc, Option.getD_none] using hrest
    | some new =>
      have htake : (pending ++ before (s :: ss) ++ post).take (n + pending.length + s.lead.length - n) =
          pending ++ s.lead := by
        have hlen : n + pending.length + s.lead.length - n = (pending ++ s.lead).length := by
          rw [List.length_append]
          omega
        have htext : pending ++ before (s :: ss) ++ post = (pending ++ s.lead) ++ (s.old ++ before ss ++ post) := by
          simp only [before_cons, List.append_assoc]
        rw [hlen, htext, List.take_left]
      have hdrop : (pending ++ before (s :: ss) ++ post).drop
          (n + pending.length + s.lead.length + s.old.length - n) = before ss ++ post := by
        have hlen : n + pending.length + s.lead.length + s.old.length - n = (pending ++ s.lead ++ s.old).length := by
          simp only [List.length_append]
          omega
        have htext : pending ++ before (s :: ss) ++ post = (pending ++ s.lead ++ s.old) ++ (before ss ++ post) := by
          simp only [before_cons, List.append_assoc]
        rw [hlen, htext, List.drop_left]
      have hrest := ih [] (n + pending.length + s.lead.length + s.old.length)
      rw [List.length_nil, Nat.add_zero, List.nil_append, List.nil_append] at hrest
      rw [edits_cons_some hnew, splice, if_neg (by dsimp only; omega), htake, hdrop, hrest, after_cons, hnew]
      simp

/-- Edits that each replace one stretch can be made, and make this. -/
theorem applyEdits_stretches (h : ∀ s ∈ ss, s.old ≠ []) (hes : es.Perm (edits pre.length ss)) :
    applyEdits (pre ++ before ss ++ post) es = .ok (pre ++ after ss ++ post) := by
  have hsplice := splice_edits ss pre post 0
  rw [Nat.zero_add] at hsplice
  rw [applyEdits, mergeSort_eq_edits h hes, hsplice]

/-- Nothing is changed but the stretches that an edit replaces. -/
theorem sameOutside_edits (ss : List Stretch) (pre post : List Char) (n : Nat) :
    SameOutside (fun a b => ∃ e ∈ edits (n + pre.length) ss, e.start = a ∧ e.stop = b) n
      (pre ++ before ss ++ post) (pre ++ after ss ++ post) := by
  induction ss generalizing pre n with
  | nil => exact .refl _
  | cons s ss ih =>
    cases hnew : s.new? with
    | none =>
      have hrest := ih (pre ++ s.lead ++ s.old) n
      rw [edits_cons_none hnew, before_cons, after_cons, hnew]
      simpa only [List.append_assoc, List.length_append, Nat.add_assoc, Option.getD_none] using hrest
    | some new =>
      have hrest := ih [] (n + pre.length + s.lead.length + s.old.length)
      rw [List.length_nil, Nat.add_zero, List.nil_append, List.nil_append] at hrest
      rw [edits_cons_some hnew, before_cons, after_cons, hnew]
      have htext (u : List Char) (us : List Stretch → List Char) :
          pre ++ (s.lead ++ u ++ us ss) ++ post = (pre ++ s.lead) ++ (u ++ (us ss ++ post)) := by
        simp only [List.append_assoc]
      rw [Option.getD_some, htext, htext]
      refine .append ?_
      rw [List.length_append, ← Nat.add_assoc]
      exact .replaced ⟨_, List.mem_cons_self, rfl, rfl⟩
        (hrest.mono fun a b ⟨e, he, hab⟩ => ⟨e, List.mem_cons_of_mem _ he, hab⟩)

end Stretch

end Text
end ModuleLink
