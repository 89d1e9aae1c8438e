import ModuleLink.Java.Grammar

/-!
What a source declares at its top: its package and its classes.
-/

namespace ModuleLink
namespace Java

open Reader Grammar

structure Outline where
  package : Option String
  classes : List ClassHead

namespace Outline

/-- The package of a source.  Annotations count only in front of it. -/
def packageName (self : Rules) : Reader (Option String) := do
  let start ← get
  if ← seesMark then
    repeatUntil (self .mark) (do return !(← seesMark))
  if ← take? ["package"] then
    let name ← qualifiedName
    accept ";"
    return some name
  else
    set start
    return none

def importTail : Nat → Reader Unit
  | 0 => refuse
  | n + 1 => do
    let _ ← identifier
    if ← take? ["."] then
      if ← take? ["*"] then accept ";" else importTail n
    else accept ";"

def imports : Reader Unit :=
  whileSees (sees ["import"]) do
    accept "import"
    let _ ← take? ["static"]
    importTail ((← get).length + 1)

/-- A declaration at the top, if it is one of a class. -/
def topDeclaration (self : Rules) : Reader (Option ClassHead) := do
  if ← take? [";"] then return none
  else
    modifiersAnd self
    if ← sees ["class"] then
      let head ← classHead
      self .classBody
      return some head
    else
      bareDeclaration self
      return none

/-- The classes among the declarations up to the end. -/
def classHeads (self : Rules) : Nat → Reader (List ClassHead)
  | 0 => refuse
  | n + 1 => do
    if (← get).isEmpty then return []
    else
      let found ← topDeclaration self
      let more ← classHeads self n
      return found.toList ++ more

inductive Outcome where
  | outline (o : Outline)
  | rejected
  /-- The source ends inside its package or its imports. -/
  | cutOff
  /-- The source ends behind an expression. -/
  | openEnded

/-- A way to read sources. -/
abbrev Parser := String → Outcome

def ofTokens (tokens : List Token) : Outcome :=
  let self := rules tokens
  match (do let package ← packageName self; imports; return package : Reader (Option String)) tokens with
  | .error .mismatch => .rejected
  | .error .exhausted => .cutOff
  | .error .openEnded => .openEnded
  | .ok (package, rest) =>
    match classHeads self (rest.length + 1) rest with
    | .error .openEnded => .openEnded
    | .error _ => .rejected
    | .ok (heads, _) => .outline ⟨package, heads⟩

def ofSource (source : String) : Outcome :=
  match tokens? source with
  | some tokens => ofTokens tokens
  | none => .rejected

end Outline
end Java
end ModuleLink
