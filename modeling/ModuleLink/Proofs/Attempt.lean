import Mathlib
import ModuleLink.Attempt

/-!
Running steps one after another.  A step that ends in a value hands its state on, and one that ends in a fault ends the
run.
-/

namespace ModuleLink
namespace Attempt

variable {σ τ α β : Type} {x : Attempt σ α} {f : α → Attempt σ β} {s s' : σ}

theorem run_bind (x : Attempt σ α) (f : α → Attempt σ β) (s : σ) :
    (x >>= f).run s = match x.run s with
      | (.ok a, s') => (f a).run s'
      | (.error e, s') => (.error e, s') := by
  have hrun : (x >>= f).run s = ExceptT.bindCont f (x.run s).1 (x.run s).2 := rfl
  rw [hrun]
  rcases x.run s with ⟨_ | _, _⟩ <;> rfl

theorem run_bind_ok {a : α} (h : x.run s = (.ok a, s')) : (x >>= f).run s = (f a).run s' := by
  rw [run_bind, h]

theorem run_bind_error {e : Fault} (h : x.run s = (.error e, s')) : (x >>= f).run s = (.error e, s') := by
  rw [run_bind, h]

/-- A run that ends in a value has ended in a value at its first step. -/
theorem run_bind_eq_ok {b : β} {s'' : σ} (h : (x >>= f).run s = (.ok b, s'')) :
    ∃ a s', x.run s = (.ok a, s') ∧ (f a).run s' = (.ok b, s'') := by
  rw [run_bind] at h
  rcases hx : x.run s with ⟨e | a, s'⟩
  · rw [hx] at h
    injection h with h
    contradiction
  · rw [hx] at h
    exact ⟨a, s', rfl, h⟩

@[simp] theorem run_pure (a : α) (s : σ) : (pure a : Attempt σ α).run s = (.ok a, s) := rfl

@[simp] theorem run_get (s : σ) : (get : Attempt σ σ).run s = (.ok s, s) := rfl

@[simp] theorem run_modify (g : σ → σ) (s : σ) : (modify g : Attempt σ Unit).run s = (.ok (), g s) := rfl

@[simp] theorem run_throw (e : Fault) (s : σ) : (throw e : Attempt σ α).run s = (.error e, s) := rfl

theorem run_pure_eq_ok {a b : α} (h : (pure a : Attempt σ α).run s = (.ok b, s')) : a = b ∧ s = s' := by
  rw [run_pure] at h
  injection h with hab hs
  exact ⟨Except.ok.inj hab, hs⟩

theorem run_pure_ne_error {a : α} {e : Fault} : (pure a : Attempt σ α).run s ≠ (.error e, s') := fun h => by
  injection h with h
  contradiction

theorem run_outcome {r : Except Fault α} (h : x.run s = (r, s')) : x.outcome.run s = (.ok r, s') := by
  have hrun : x.outcome.run s = (.ok (x.run s).1, (x.run s).2) := rfl
  rw [hrun, h]

theorem run_eq_of_fst {r : Except Fault α} (h : (x.run s).1 = r) : x.run s = (r, (x.run s).2) :=
  Prod.ext h rfl

theorem run_eq_of_isOk (h : (x.run s).1.isOk = true) : ∃ a, x.run s = (.ok a, (x.run s).2) := by
  rcases hrun : x.run s with ⟨e | a, s'⟩
  · rw [hrun] at h
    contradiction
  · exact ⟨a, rfl⟩

/-! ## Properties of the state -/

/-- However the step ends, it leaves a state with the property where it found one. -/
def Keeps (P : σ → Prop) (x : Attempt σ α) : Prop := ∀ s, P s → P (x.run s).2

theorem run_of_keeps {P : σ → Prop} {r : Except Fault α} (hx : Keeps P x) (h : x.run s = (r, s')) (hs : P s) : P s' := by
  have hkept := hx s hs
  rwa [h] at hkept

theorem keeps_pure {P : σ → Prop} (a : α) : Keeps P (pure a : Attempt σ α) := fun _ h => h

theorem keeps_throw {P : σ → Prop} (e : Fault) : Keeps P (throw e : Attempt σ α) := fun _ h => h

theorem keeps_get {P : σ → Prop} : Keeps P (get : Attempt σ σ) := fun _ h => h

theorem keeps_ofExcept {P : σ → Prop} (r : Except Fault α) : Keeps P (ofExcept r : Attempt σ α) := fun _ h => h

theorem Keeps.outcome {P : σ → Prop} (h : Keeps P x) : Keeps P x.outcome := h

/-- A property that the first step leads to is there at the end, if what follows keeps it. -/
theorem state_bind {P : σ → Prop} (hx : P (x.run s).2) (hf : ∀ a, Keeps P (f a)) : P ((x >>= f).run s).2 := by
  rcases hrun : x.run s with ⟨e | a, s'⟩
  · rw [hrun] at hx
    rw [run_bind_error hrun]
    exact hx
  · rw [hrun] at hx
    rw [run_bind_ok hrun]
    exact hf a s' hx

theorem Keeps.bind {P : σ → Prop} (hx : Keeps P x) (hf : ∀ a, Keeps P (f a)) : Keeps P (x >>= f) :=
  fun s hs => state_bind (hx s hs) hf

theorem keeps_mapM {γ : Type} {P : σ → Prop} {g : γ → Attempt σ α} {xs : List γ} (h : ∀ x ∈ xs, Keeps P (g x)) :
    Keeps P (xs.mapM g) := by
  induction xs with
  | nil => exact keeps_pure _
  | cons x xs ih =>
    rw [List.forall_mem_cons] at h
    rw [List.mapM_cons]
    exact h.1.bind fun _ => (ih h.2).bind fun _ => keeps_pure _

theorem keeps_forIn {γ : Type} {P : σ → Prop} {g : γ → β → Attempt σ (ForInStep β)} {xs : List γ}
    (h : ∀ x ∈ xs, ∀ b, Keeps P (g x b)) (b : β) : Keeps P (forIn xs b g) := by
  induction xs generalizing b with
  | nil => exact keeps_pure _
  | cons x xs ih =>
    rw [List.forall_mem_cons] at h
    rw [List.forIn_cons]
    refine (h.1 b).bind fun step => ?_
    cases step with
    | done b => exact keeps_pure b
    | yield b => exact ih h.2 b

/-! ## Properties of the value -/

/-- From a state with the property the step leads to a state with the property, however it ends, and the value that it
ends in satisfies `Q`. -/
def Gives (P : σ → Prop) (Q : α → Prop) (x : Attempt σ α) : Prop :=
  ∀ s, P s → P (x.run s).2 ∧ ∀ a, (x.run s).1 = .ok a → Q a

theorem Gives.keeps {P : σ → Prop} {Q : α → Prop} (h : Gives P Q x) : Keeps P x := fun s hs => (h s hs).1

theorem gives_anything (x : Attempt σ α) : Gives (fun _ => True) (fun _ => True) x :=
  fun _ _ => ⟨trivial, fun _ _ => trivial⟩

theorem Keeps.gives {P : σ → Prop} (h : Keeps P x) : Gives P (fun _ => True) x := fun s hs => ⟨h s hs, fun _ _ => trivial⟩

theorem gives_pure {P : σ → Prop} {Q : α → Prop} {a : α} (h : Q a) : Gives P Q (pure a : Attempt σ α) := by
  refine fun s hs => ⟨hs, fun b hb => ?_⟩
  obtain rfl := Except.ok.inj hb
  exact h

/-- What follows a step may count on what is known of its value. -/
theorem Gives.bind {P : σ → Prop} {Q : α → Prop} {R : β → Prop} (hx : Gives P Q x) (hf : ∀ a, Q a → Gives P R (f a)) :
    Gives P R (x >>= f) := by
  intro s hs
  obtain ⟨hstate, hvalue⟩ := hx s hs
  rcases hrun : x.run s with ⟨e | a, s'⟩
  · rw [hrun] at hstate
    rw [run_bind_error hrun]
    exact ⟨hstate, fun b hb => by contradiction⟩
  · rw [hrun] at hstate hvalue
    rw [run_bind_ok hrun]
    exact hf a (hvalue a rfl) s' hstate

/-! ## Runs over lists -/

/-- What holds of the part of a list that is done, and after a step of one entry more, holds of the whole list at the
end. -/
theorem run_mapM {γ : Type} {g : γ → Attempt σ α} {out : γ → α} {I : List γ → σ → Prop} {xs : List γ}
    (hstep : ∀ done, ∀ x ∈ xs, ∀ s, I done s → ∃ s', (g x).run s = (.ok (out x), s') ∧ I (done ++ [x]) s')
    (hstart : I [] s) : ∃ s', (xs.mapM g).run s = (.ok (xs.map out), s') ∧ I xs s' := by
  have hrest : ∀ ys, (∀ y ∈ ys, y ∈ xs) → ∀ done s, I done s →
      ∃ s', (ys.mapM g).run s = (.ok (ys.map out), s') ∧ I (done ++ ys) s' := by
    intro ys
    induction ys with
    | nil => exact fun _ done s hdone => ⟨s, rfl, by rwa [List.append_nil]⟩
    | cons y ys ih =>
      intro hsub done s hdone
      rw [List.forall_mem_cons] at hsub
      obtain ⟨s₁, hrun, hdone₁⟩ := hstep done y hsub.1 s hdone
      obtain ⟨s', hrest, hdone'⟩ := ih hsub.2 _ s₁ hdone₁
      refine ⟨s', ?_, by rwa [List.append_assoc] at hdone'⟩
      rw [List.mapM_cons, run_bind_ok hrun, run_bind_ok hrest]
      rfl
  exact hrest xs (fun _ hy => hy) [] s hstart

/-- The same for a loop that never breaks off. -/
theorem run_forIn {γ : Type} {g : γ → β → Attempt σ (ForInStep β)} {b : β} {I : List γ → σ → Prop} {xs : List γ}
    (hstep : ∀ done, ∀ x ∈ xs, ∀ s, I done s → ∃ s', (g x b).run s = (.ok (.yield b), s') ∧ I (done ++ [x]) s')
    (hstart : I [] s) : ∃ s', (forIn xs b g).run s = (.ok b, s') ∧ I xs s' := by
  have hrest : ∀ ys, (∀ y ∈ ys, y ∈ xs) → ∀ done s, I done s →
      ∃ s', (forIn ys b g).run s = (.ok b, s') ∧ I (done ++ ys) s' := by
    intro ys
    induction ys with
    | nil => exact fun _ done s hdone => ⟨s, rfl, by rwa [List.append_nil]⟩
    | cons y ys ih =>
      intro hsub done s hdone
      rw [List.forall_mem_cons] at hsub
      obtain ⟨s₁, hrun, hdone₁⟩ := hstep done y hsub.1 s hdone
      obtain ⟨s', hrest, hdone'⟩ := ih hsub.2 _ s₁ hdone₁
      refine ⟨s', ?_, by rwa [List.append_assoc] at hdone'⟩
      rw [List.forIn_cons, run_bind_ok hrun]
      exact hrest
  exact hrest xs (fun _ hy => hy) [] s hstart

/-- The same for a loop that has come to a value. -/
theorem run_forIn_eq_ok {γ : Type} {g : γ → β → Attempt σ (ForInStep β)} {b b' : β} {I : List γ → σ → Prop} {xs : List γ}
    (h : (forIn xs b g).run s = (.ok b', s')) (hstart : I [] s)
    (hstep : ∀ done, ∀ x ∈ xs, ∀ s r s', I done s → (g x b).run s = (.ok r, s') → r = .yield b ∧ I (done ++ [x]) s') :
    I xs s' := by
  have hrest : ∀ ys, (∀ y ∈ ys, y ∈ xs) → ∀ done s, I done s → (forIn ys b g).run s = (.ok b', s') → I (done ++ ys) s' := by
    intro ys
    induction ys with
    | nil =>
      intro _ done s hdone h
      obtain ⟨-, rfl⟩ := run_pure_eq_ok h
      rwa [List.append_nil]
    | cons y ys ih =>
      intro hsub done s hdone h
      rw [List.forall_mem_cons] at hsub
      rw [List.forIn_cons] at h
      obtain ⟨r, s₁, hrun, h⟩ := run_bind_eq_ok h
      obtain ⟨rfl, hdone₁⟩ := hstep done y hsub.1 s r s₁ hdone hrun
      have hrest := ih hsub.2 _ s₁ hdone₁ h
      rwa [List.append_assoc] at hrest
  exact hrest xs (fun _ hy => hy) [] s hstart h

end Attempt
end ModuleLink
