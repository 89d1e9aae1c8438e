import ModuleLink.Attempt

/-!
What a run tells its user.
-/

namespace ModuleLink

inductive Level where
  | info
  | warning
  | error
deriving DecidableEq

namespace Level

def name : Level → String
  | info => "INFO"
  | warning => "WARNING"
  | error => "ERROR"

end Level

structure Notice where
  level : Level
  text : String
deriving DecidableEq

/-- A state that notices are left in. -/
class HasNotices (σ : Type) where
  note : Notice → σ → σ

instance : HasNotices (List Notice) := ⟨fun n ns => ns ++ [n]⟩

instance {α σ : Type} [HasNotices σ] : HasNotices (α × σ) := ⟨fun n s => (s.1, HasNotices.note n s.2)⟩

namespace Notice

/-- Leaves a notice. -/
def tell {σ : Type} {m : Type → Type} [MonadState σ m] [HasNotices σ] (level : Level) (text : String) : m Unit :=
  modify (HasNotices.note ⟨level, text⟩)

end Notice

/-- A step that changes nothing but may leave notices. -/
abbrev Survey (α : Type) := Attempt (List Notice) α

namespace Survey

def warn (text : String) : Survey Unit := Notice.tell .warning text

end Survey
end ModuleLink
