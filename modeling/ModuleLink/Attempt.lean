import ModuleLink.Fault

/-!
Steps that may fail.  A failure ends the step and keeps what was done before it.
-/

namespace ModuleLink

/-- A step over a state that ends in a value or in a fault. -/
abbrev Attempt (σ α : Type) := ExceptT Fault (StateM σ) α

namespace Attempt

variable {σ τ α : Type}

/-- A pure function that may fail and leaves the state alone. -/
def ofExcept (r : Except Fault α) : Attempt σ α := ExceptT.mk (pure r)

/-- A step whose new state is there in any case. -/
def ofStep (f : σ → σ × Except Fault α) : Attempt σ α :=
  ExceptT.mk fun s => let (s, r) := f s; (r, s)

/-- A step on one part of a larger state. -/
def zoom (get : τ → σ) (set : σ → τ → τ) (x : Attempt σ α) : Attempt τ α :=
  ExceptT.mk fun t => let (r, s) := x.run (get t); (r, set s t)

/-- The outcome as a value, whatever it is. -/
def outcome (x : Attempt σ α) : Attempt σ (Except Fault α) :=
  ExceptT.mk fun s => let (r, s) := x.run s; (.ok r, s)

@[simp] theorem run_ofExcept (r : Except Fault α) (s : σ) : (ofExcept r).run s = (r, s) := rfl

@[simp] theorem run_ofStep (f : σ → σ × Except Fault α) (s : σ) :
    (ofStep f).run s = ((f s).2, (f s).1) := rfl

end Attempt
end ModuleLink
