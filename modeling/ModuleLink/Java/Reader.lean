import ModuleLink.Java.Token

/-!
Readers of token lists, and the types of Java, which need nothing else.
-/

namespace ModuleLink
namespace Java

/-- Why a reader stops. -/
inductive Halt where
  /-- Another token was wanted.  A different rule may still fit. -/
  | mismatch
  /-- The tokens have ended where one was wanted. -/
  | exhausted
  /-- The tokens have ended where an expression may go on. -/
  | openEnded
deriving DecidableEq

abbrev Reader (α : Type) := StateT (List Token) (Except Halt) α

namespace Reader

variable {α : Type}

def refuse : Reader α := throw .mismatch

/-- The text of the token that comes after `n` others. -/
def ahead (n : Nat) : Reader (Option String) := do
  return (← get)[n]?.map Token.text

def kindAhead (n : Nat) : Reader (Option Kind) := do
  return (← get)[n]?.map Token.kind

/-- These texts come next. -/
def sees (texts : List String) : Reader Bool := do
  return texts.isPrefixOf ((← get).map Token.text |>.take texts.length)

def seesOneOf (texts : List String) : Reader Bool := do
  match ← ahead 0 with
  | some t => return texts.contains t
  | none => return false

def seesKind (k : Kind) : Reader Bool := do
  return (← kindAhead 0) == some k

/-- A word comes next, and then a token with this text. -/
def seesWordThen (text : String) : Reader Bool := do
  return (← seesKind .identifier) && (← ahead 1) == some text

/-- Takes the next token whatever it is. -/
def next : Reader Token := do
  match ← get with
  | [] => throw .exhausted
  | t :: rest =>
    set rest
    return t

def accept (text : String) : Reader Unit := do
  let t ← next
  if t.text = text then return else refuse

def acceptKind (k : Kind) : Reader String := do
  let t ← next
  if t.kind = k then return t.text else refuse

def identifier : Reader String := acceptKind .identifier

/-- Takes these texts if they come next, and says whether they did. -/
def take? (texts : List String) : Reader Bool := do
  if ← sees texts then
    modify (·.drop texts.length)
    return true
  else return false

/-- The first reader, or the second one from the same place if the first one does not fit. -/
def orElse (a b : Reader α) : Reader α := fun ts =>
  match a ts with
  | .error .mismatch => b ts
  | r => r

/-- Reads again and again as long as the test holds.  The first argument bounds the number of times. -/
def whileFrom (test : Reader Bool) (body : Reader Unit) : Nat → Reader Unit
  | 0 => refuse
  | n + 1 => do
    if ← test then
      body
      whileFrom test body n

def whileSees (test : Reader Bool) (body : Reader Unit) : Reader Unit := do
  whileFrom test body ((← get).length + 1)

def repeatFrom (item : Reader Unit) (stop : Reader Bool) : Nat → Reader Unit
  | 0 => refuse
  | n + 1 => do
    item
    if !(← stop) then repeatFrom item stop n

/-- Reads items, at least one, until `stop` says that it was the last one. -/
def repeatUntil (item : Reader Unit) (stop : Reader Bool) : Reader Unit := do
  repeatFrom item stop ((← get).length + 1)

/-- Reads one and then as many more as the separator announces. -/
def separated (separator : String) (item : Reader Unit) : Reader Unit := do
  item
  whileSees (take? [separator]) item

/-- Names with dots between them. -/
def qualifiedName : Reader String := do
  let first ← identifier
  let rec more : Nat → String → Reader String
    | 0, _ => refuse
    | n + 1, name => do
      if ← take? ["."] then
        let part ← identifier
        more n (name ++ "." ++ part)
      else return name
  more ((← get).length + 1) first

/-! ## Types -/

def dimensions : Reader Unit := whileSees (take? ["[", "]"]) (return)

/-- A primitive type counts as an argument only as an array. -/
def argumentOf (named : Reader String) : Reader String := do
  if ← seesKind .primitive then
    let name ← acceptKind .primitive
    accept "["
    accept "]"
    dimensions
    return name
  else
    let name ← named
    dimensions
    return name

/-- One argument of a type. -/
def typeArgument (named : Reader String) : Reader Unit := do
  if ← take? ["?"] then
    if ← seesOneOf ["extends", "super"] then
      let _ ← next
    else return
  let _ ← argumentOf named

/-- Arguments of a type from behind the opening bracket to the closing one. -/
def typeArgumentsTail (named : Reader String) : Reader Unit :=
  repeatUntil (typeArgument named) do
    if ← take? [">"] then return true
    else
      accept ","
      return false

/-- A type that starts with a name, part by part.  The first argument bounds the depth, the second one the number of
parts. -/
def namedTypeFrom : Nat → Nat → Reader String
  | 0, _ => refuse
  | _, 0 => refuse
  | depth + 1, parts + 1 => do
    let name ← identifier
    if ← take? ["<"] then
      typeArgumentsTail (do namedTypeFrom depth ((← get).length + 1))
    if ← take? ["."] then namedTypeFrom (depth + 1) parts else return name

def namedType : Reader String := do
  let n := (← get).length + 1
  namedTypeFrom n n

def typeArguments : Reader Unit := do
  accept "<"
  typeArgumentsTail namedType

def type : Reader String := do
  if ← seesKind .primitive then
    let name ← acceptKind .primitive
    dimensions
    return name
  else if ← seesKind .identifier then
    let name ← namedType
    dimensions
    return name
  else refuse

/-- Types with commas between them, by their last names. -/
def typeListFrom : Nat → Reader (List String)
  | 0 => refuse
  | n + 1 => do
    let name ← argumentOf namedType
    if ← take? [","] then
      let more ← typeListFrom n
      return name :: more
    else return [name]

def typeList : Reader (List String) := do
  typeListFrom ((← get).length + 1)

/-- Arguments without a wildcard. -/
def plainTypeArguments : Reader Unit := do
  accept "<"
  let _ ← typeList
  accept ">"

def typeArgumentsOrNone : Reader Unit := do
  if !(← take? ["<", ">"]) then typeArguments

def plainTypeArgumentsOrNone : Reader Unit := do
  if !(← take? ["<", ">"]) then plainTypeArguments

def typeParameter : Reader Unit := do
  let _ ← identifier
  if ← take? ["extends"] then
    separated "&" (do let _ ← namedType)

def typeParameters : Reader Unit := do
  accept "<"
  separated "," typeParameter
  accept ">"

def typeParametersIfAny : Reader Unit := do
  if ← sees ["<"] then typeParameters

end Reader
end Java
end ModuleLink
