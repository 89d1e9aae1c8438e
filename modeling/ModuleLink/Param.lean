import ModuleLink.Attempt
import ModuleLink.Setting.Basic
import ModuleLink.Text.Classes

/-!
Values that a library wants from its user, asked for once in a run.
-/

namespace ModuleLink

structure Param where
  name : String
  message : String := ""
  default? : Option String := none
deriving DecidableEq

/-- Values by name, in the order they became known. -/
abbrev Answers := List (String × String)

namespace Param

/-- The value where nobody answers. -/
def fallback (p : Param) : String := p.default?.getD ""

/-- A declared param.  Values of other kinds than text count as they are shown. -/
def ofTable (t : Table) : Except Fault Param :=
  match t.get? "name" with
  | none => .error .unnamedParam
  | some name =>
    let message := (t.given? "message").getD name
    let default? := match t.get? "default" with
      | none => none
      | some .null => none
      | some v => some v.asText
    .ok ⟨name.asText, message.asText, default?⟩

/-- The question on the terminal. -/
def question (p : Param) : String :=
  p.message ++ (if p.fallback.isEmpty then "" else " [" ++ p.fallback ++ "]") ++ ": "

/-- An answer typed on the terminal; an empty one selects the default. -/
def typed (p : Param) (line : String) : String :=
  let answer := Text.trim line.toList
  if answer.isEmpty then p.fallback else String.ofList answer

end Param

namespace Answers

/-- The value goes to the place of the name, which is the end for a new name. -/
def record (name value : String) : Answers → Answers
  | [] => [(name, value)]
  | (k, v) :: rest => if k = name then (k, value) :: rest else (k, v) :: record name value rest

/-- The value of one param: the one known, or the one that `ask` gives, which is then known. -/
def resolveOne {σ : Type} (ask : Param → Attempt σ String) (p : Param) : Attempt (Answers × σ) String := do
  let (known, _) ← get
  match known.lookup p.name with
  | some value => return value
  | none =>
    let value ← Attempt.zoom (·.2) (fun s t => (t.1, s)) (ask p)
    modify fun (known, s) => (record p.name value known, s)
    return value

/-- The values of params, by name, in the order of their first appearance. -/
def resolve {σ : Type} (ask : Param → Attempt σ String) (ps : List Param) : Attempt (Answers × σ) Answers :=
  ps.foldlM (fun resolved p => do
    let value ← resolveOne ask p
    return record p.name value resolved) []

end Answers

/-! ## Askers -/

/-- Takes the default of every param. -/
def askNobody {σ : Type} (p : Param) : Attempt σ String := return p.fallback

/-- What has been shown on a terminal, and what is still to be typed. -/
structure Terminal where
  input : List Char := []
  shown : String := ""

namespace Terminal

/-- The next line, with nothing where the input has ended. -/
def nextLine (t : Terminal) : String × Terminal :=
  (String.ofList (t.input.takeWhile (· != '\n')), { t with input := (t.input.dropWhile (· != '\n')).drop 1 })

def ask (p : Param) : Attempt Terminal String := do
  let (line, t) := (← get).nextLine
  set { t with shown := t.shown ++ p.question }
  return p.typed line

end Terminal
end ModuleLink
