import ModuleLink.Proofs.Plist.Rest

/-!
Reading a property list as a relation between a text, what is read from its front and what is left.  The readers of
`Plist.Scan` find exactly this, as long as their first argument is large enough for the text.
-/

namespace ModuleLink
namespace Plist

/-- What the readers find. -/
inductive Found where
  | value (v : Value)
  | items (vs : List Value)
  | members (ms : List Member)

/-- What is found at the front of a text, and what is left behind it. -/
inductive Reads : Found → List Char → List Char → Prop
  | dict {cs after rest : List Char} {ms : List Member} :
      skip cs = .ok ('\x7b' :: after) → Reads (.members ms) after rest →
      Reads (.value (.dict (Dict.ofMembers ms))) cs rest
  | list {cs after rest : List Char} {vs : List Value} :
      skip cs = .ok ('(' :: after) → Reads (.items vs) after rest → Reads (.value (.list vs)) cs rest
  | scalar {cs start rest : List Char} {s : Scalar} :
      skip cs = .ok start → start.head? ≠ some '\x7b' → start.head? ≠ some '(' →
      scalar start = .ok (s, rest) → Reads (.value (.scalar s)) cs rest
  | noItem {cs rest : List Char} : skip cs = .ok (')' :: rest) → Reads (.items []) cs rest
  | lastItem {cs start left rest : List Char} {v : Value} :
      skip cs = .ok start → start ≠ [] → start.head? ≠ some ')' → Reads (.value v) start left →
      skip left = .ok (')' :: rest) → Reads (.items [v]) cs rest
  | item {cs start left after rest : List Char} {v : Value} {vs : List Value} :
      skip cs = .ok start → start ≠ [] → start.head? ≠ some ')' → Reads (.value v) start left →
      skip left = .ok (',' :: after) → Reads (.items vs) after rest → Reads (.items (v :: vs)) cs rest
  | noMember {cs rest : List Char} : skip cs = .ok ('\x7d' :: rest) → Reads (.members []) cs rest
  | member {cs start left body after closed rest : List Char} {key : Scalar} {v : Value} {ms : List Member} :
      skip cs = .ok start → start ≠ [] → start.head? ≠ some '\x7d' → Plist.scalar start = .ok (key, left) →
      expect '=' left = .ok body → Reads (.value v) body after → expect ';' after = .ok closed →
      Reads (.members ms) closed rest → Reads (.members (⟨key, v, start, body, closed⟩ :: ms)) cs rest

theorem Reads.suffix {f : Found} {cs rest : List Char} (h : Reads f cs rest) : rest <:+ cs := by
  induction h with
  | dict hskip _ ih => exact (ih.trans (List.suffix_cons _ _)).trans (skip_suffix hskip)
  | list hskip _ ih => exact (ih.trans (List.suffix_cons _ _)).trans (skip_suffix hskip)
  | scalar hskip _ _ hscalar => exact (scalar_suffix hscalar).trans (skip_suffix hskip)
  | noItem hskip => exact (List.suffix_cons _ _).trans (skip_suffix hskip)
  | lastItem hskip _ _ _ hend ih =>
    exact (((List.suffix_cons _ _).trans (skip_suffix hend)).trans ih).trans (skip_suffix hskip)
  | item hskip _ _ _ hcomma _ ihv ih =>
    exact (((ih.trans (List.suffix_cons _ _)).trans (skip_suffix hcomma)).trans ihv).trans (skip_suffix hskip)
  | noMember hskip => exact (List.suffix_cons _ _).trans (skip_suffix hskip)
  | member hskip _ _ hkey hequals _ hend _ ihv ih =>
    exact ((ih.trans (rest_suffix_of_expect hend)).trans ihv).trans (body_suffix hskip hkey hequals)

/-! ## The readers find it -/

/-- The reader for what is found comes to it. -/
def Found.IsReadBy (n : Nat) (cs rest : List Char) : Found → Prop
  | .value v => Plist.value n cs = .ok (v, rest)
  | .items vs => Plist.items n cs = .ok (vs, rest)
  | .members ms => Plist.members n cs = .ok (ms, rest)

/-- How large the first argument of the reader has to be. -/
def Found.bound (cs : List Char) : Found → Nat
  | .value _ => 2 * cs.length + 1
  | _ => 2 * cs.length + 2

theorem value_of_scalar {n : Nat} {cs start rest : List Char} {s : Scalar} (hskip : skip cs = .ok start)
    (hbrace : start.head? ≠ some '\x7b') (hparen : start.head? ≠ some '(') (h : scalar start = .ok (s, rest)) :
    value (n + 1) cs = .ok (.scalar s, rest) := by
  rw [value, bind_of_ok hskip]
  split
  · exact absurd rfl hbrace
  · exact absurd rfl hparen
  · rw [bind_of_ok h]

theorem items_of_value {n : Nat} {cs start left : List Char} {v : Value} (hskip : skip cs = .ok start)
    (hne : start ≠ []) (hparen : start.head? ≠ some ')') (h : value n start = .ok (v, left)) :
    items (n + 1) cs = (do
      let rest ← skip left
      match rest with
      | ',' :: rest =>
        let (vs, rest) ← items n rest
        .ok (v :: vs, rest)
      | ')' :: rest => .ok ([v], rest)
      | _ => .error ⟨.expectedSeparator, rest⟩) := by
  rw [items, bind_of_ok hskip]
  split
  · exact absurd rfl hne
  · exact absurd rfl hparen
  · exact bind_of_ok h _

theorem members_of_value {n : Nat} {cs start left body after closed : List Char} {key : Scalar} {v : Value}
    (hskip : skip cs = .ok start) (hne : start ≠ []) (hbrace : start.head? ≠ some '\x7d')
    (hkey : scalar start = .ok (key, left)) (hequals : expect '=' left = .ok body)
    (h : value n body = .ok (v, after)) (hend : expect ';' after = .ok closed) :
    members (n + 1) cs = (do
      let (ms, rest) ← members n closed
      .ok (⟨key, v, start, body, closed⟩ :: ms, rest)) := by
  rw [members, bind_of_ok hskip]
  split
  · exact absurd rfl hne
  · exact absurd rfl hbrace
  · rw [bind_of_ok hkey]
    simp only
    rw [bind_of_ok hequals, bind_of_ok h]
    simp only
    rw [bind_of_ok hend]

theorem length_lt_of_suffix {c : Char} {cs rest : List Char} (h : c :: rest <:+ cs) : rest.length < cs.length :=
  h.length_le

theorem Reads.isReadBy {f : Found} {cs rest : List Char} (h : Reads f cs rest) :
    ∀ n, f.bound cs ≤ n → f.IsReadBy n cs rest := by
  induction h with
  | @dict cs after rest ms hskip _ ih =>
    intro n hn
    have hlen := length_lt_of_suffix (skip_suffix hskip)
    obtain ⟨n, rfl⟩ : ∃ m, n = m + 1 := ⟨n - 1, by simp only [Found.bound] at hn; omega⟩
    have hms : members n after = .ok (ms, rest) := ih n (by simp only [Found.bound] at hn ⊢; omega)
    show value (n + 1) cs = _
    rw [value, bind_of_ok hskip]
    simp only
    rw [bind_of_ok hms]
  | @list cs after rest vs hskip _ ih =>
    intro n hn
    have hlen := length_lt_of_suffix (skip_suffix hskip)
    obtain ⟨n, rfl⟩ : ∃ m, n = m + 1 := ⟨n - 1, by simp only [Found.bound] at hn; omega⟩
    have hvs : items n after = .ok (vs, rest) := ih n (by simp only [Found.bound] at hn ⊢; omega)
    show value (n + 1) cs = _
    rw [value, bind_of_ok hskip]
    simp only
    rw [bind_of_ok hvs]
  | scalar hskip hbrace hparen hscalar =>
    intro n hn
    obtain ⟨n, rfl⟩ : ∃ m, n = m + 1 := ⟨n - 1, by simp only [Found.bound] at hn; omega⟩
    exact value_of_scalar hskip hbrace hparen hscalar
  | @noItem cs rest hskip =>
    intro n hn
    obtain ⟨n, rfl⟩ : ∃ m, n = m + 1 := ⟨n - 1, by simp only [Found.bound] at hn; omega⟩
    show items (n + 1) cs = _
    rw [items, bind_of_ok hskip]
    rfl
  | @lastItem cs start left rest v hskip hne hparen _ hend ihv =>
    intro n hn
    have hstart := (skip_suffix hskip).length_le
    obtain ⟨n, rfl⟩ : ∃ m, n = m + 1 := ⟨n - 1, by simp only [Found.bound] at hn; omega⟩
    have hv : value n start = .ok (v, left) := ihv n (by simp only [Found.bound] at hn ⊢; omega)
    show items (n + 1) cs = _
    rw [items_of_value hskip hne hparen hv, bind_of_ok hend]
    rfl
  | @item cs start left after rest v vs hskip hne hparen hvalue hcomma _ ihv ih =>
    intro n hn
    have hstart := (skip_suffix hskip).length_le
    have hleft := hvalue.suffix.length_le
    have hafter := length_lt_of_suffix (skip_suffix hcomma)
    obtain ⟨n, rfl⟩ : ∃ m, n = m + 1 := ⟨n - 1, by simp only [Found.bound] at hn; omega⟩
    have hv : value n start = .ok (v, left) := ihv n (by simp only [Found.bound] at hn ⊢; omega)
    have hvs : items n after = .ok (vs, rest) := ih n (by simp only [Found.bound] at hn ⊢; omega)
    show items (n + 1) cs = _
    rw [items_of_value hskip hne hparen hv, bind_of_ok hcomma]
    simp only
    rw [bind_of_ok hvs]
  | @noMember cs rest hskip =>
    intro n hn
    obtain ⟨n, rfl⟩ : ∃ m, n = m + 1 := ⟨n - 1, by simp only [Found.bound] at hn; omega⟩
    show members (n + 1) cs = _
    rw [members, bind_of_ok hskip]
    rfl
  | @member cs start left body after closed rest key v ms hskip hne hbrace hkey hequals hvalue hend _ ihv ih =>
    intro n hn
    have hstart := (skip_suffix hskip).length_le
    have hleft := (scalar_suffix hkey).length_le
    have hbody := length_lt_of_suffix (expect_suffix hequals)
    have hafter := hvalue.suffix.length_le
    have hclosed := length_lt_of_suffix (expect_suffix hend)
    obtain ⟨n, rfl⟩ : ∃ m, n = m + 1 := ⟨n - 1, by simp only [Found.bound] at hn; omega⟩
    have hv : value n body = .ok (v, after) := ihv n (by simp only [Found.bound] at hn ⊢; omega)
    have hms : members n closed = .ok (ms, rest) := ih n (by simp only [Found.bound] at hn ⊢; omega)
    show members (n + 1) cs = _
    rw [members_of_value hskip hne hbrace hkey hequals hv hend, bind_of_ok hms]

/-! ## The readers find nothing else -/

theorem reads_of_isReadBy (n : Nat) (f : Found) (cs rest : List Char) (h : f.IsReadBy n cs rest) :
    Reads f cs rest := by
  induction n generalizing f cs rest with
  | zero => cases f <;> contradiction
  | succ n ih =>
    cases f with
    | value v =>
      change value (n + 1) cs = .ok (v, rest) at h
      rw [value] at h
      obtain ⟨start, hskip, h⟩ := ok_of_bind h
      split at h
      next after =>
        obtain ⟨⟨ms, left⟩, hms, h⟩ := ok_of_bind h
        obtain ⟨rfl, rfl⟩ := Prod.mk.inj (Except.ok.inj h)
        exact .dict hskip (ih (.members ms) after left hms)
      next after =>
        obtain ⟨⟨vs, left⟩, hvs, h⟩ := ok_of_bind h
        obtain ⟨rfl, rfl⟩ := Prod.mk.inj (Except.ok.inj h)
        exact .list hskip (ih (.items vs) after left hvs)
      next hbrace hparen =>
        obtain ⟨⟨s, left⟩, hs, h⟩ := ok_of_bind h
        obtain ⟨rfl, rfl⟩ := Prod.mk.inj (Except.ok.inj h)
        refine .scalar hskip (fun e => ?_) (fun e => ?_) hs
        · obtain ⟨t, ht⟩ := List.head?_eq_some_iff.mp e
          exact hbrace t ht
        · obtain ⟨t, ht⟩ := List.head?_eq_some_iff.mp e
          exact hparen t ht
    | items vs =>
      change items (n + 1) cs = .ok (vs, rest) at h
      rw [items] at h
      obtain ⟨start, hskip, h⟩ := ok_of_bind h
      split at h
      · contradiction
      · obtain ⟨rfl, rfl⟩ := Prod.mk.inj (Except.ok.inj h)
        exact .noItem hskip
      next hne hparen =>
        obtain ⟨⟨v, left⟩, hv, h⟩ := ok_of_bind h
        obtain ⟨next, hnext, h⟩ := ok_of_bind h
        have hparen' : start.head? ≠ some ')' := fun e => by
          obtain ⟨t, ht⟩ := List.head?_eq_some_iff.mp e
          exact hparen t ht
        have hvalue := ih (.value v) start left hv
        split at h
        next after =>
          obtain ⟨⟨vs', after'⟩, hvs, h⟩ := ok_of_bind h
          obtain ⟨rfl, rfl⟩ := Prod.mk.inj (Except.ok.inj h)
          exact .item hskip hne hparen' hvalue hnext (ih (.items vs') after after' hvs)
        · obtain ⟨rfl, rfl⟩ := Prod.mk.inj (Except.ok.inj h)
          exact .lastItem hskip hne hparen' hvalue hnext
        · contradiction
    | members ms =>
      change members (n + 1) cs = .ok (ms, rest) at h
      rw [members] at h
      obtain ⟨start, hskip, h⟩ := ok_of_bind h
      split at h
      · contradiction
      · obtain ⟨rfl, rfl⟩ := Prod.mk.inj (Except.ok.inj h)
        exact .noMember hskip
      next hne hbrace =>
        obtain ⟨⟨key, left⟩, hkey, h⟩ := ok_of_bind h
        obtain ⟨body, hequals, h⟩ := ok_of_bind h
        obtain ⟨⟨v, after⟩, hv, h⟩ := ok_of_bind h
        obtain ⟨closed, hend, h⟩ := ok_of_bind h
        obtain ⟨⟨ms', left'⟩, hms, h⟩ := ok_of_bind h
        obtain ⟨rfl, rfl⟩ := Prod.mk.inj (Except.ok.inj h)
        have hbrace' : start.head? ≠ some '\x7d' := fun e => by
          obtain ⟨t, ht⟩ := List.head?_eq_some_iff.mp e
          exact hbrace t ht
        exact .member hskip hne hbrace' hkey hequals (ih (.value v) body after hv) hend
          (ih (.members ms') closed left' hms)

/-- The readers and the relation agree. -/
theorem reads_iff {f : Found} {cs rest : List Char} : Reads f cs rest ↔ f.IsReadBy (f.bound cs) cs rest :=
  ⟨fun h => h.isReadBy _ (Nat.le_refl _), reads_of_isReadBy _ _ _ _⟩

end Plist
end ModuleLink
