import ModuleLink.Java.Reader

/-!
The grammar of Java 8 as far as it decides whether a source is accepted.  A rule is a reader that is given the readers of
the symbols inside it, so no rule refers to itself.
-/

namespace ModuleLink
namespace Java

/-- The symbols whose rules lead back to themselves. -/
inductive Symbol where
  /-- An annotation. -/
  | mark
  | elementValue
  | expression
  | conditional
  | operand
  | initializer
  | block
  | statement
  | blockStatement
  | classBody
  /-- A class, an enumeration, an interface or an annotation type, with its modifiers. -/
  | declaration

namespace Grammar

open Reader

/-- The reader of every symbol. -/
abbrev Rules := Symbol → Reader Unit

def seesMark : Reader Bool := do
  return (← ahead 0) == some "@" && (← ahead 1) != some "interface"

variable (self : Rules)

/-! ## Annotations and modifiers -/

def markElement : Reader Unit := do
  if ← seesWordThen "=" then
    separated "," do
      let _ ← identifier
      accept "="
      self .elementValue
  else self .elementValue

def mark : Reader Unit := do
  accept "@"
  let _ ← qualifiedName
  if ← take? ["("] then
    if !(← sees [")"]) then markElement self
    accept ")"

def elementValue : Reader Unit := do
  if ← seesMark then self .mark
  else if ← take? ["\x7b"] then
    if !(← take? ["\x7d"]) then
      repeatUntil (self .elementValue) do
        if (← sees ["\x7d"]) || (← sees [",", "\x7d"]) then return true
        else
          accept ","
          return false
      let _ ← take? [","]
      accept "\x7d"
  else self .conditional

def modifiersAnd : Reader Unit :=
  whileSees (do return (← seesKind .modifier) || (← seesMark)) do
    if ← seesKind .modifier then
      let _ ← next
    else self .mark

/-- The modifiers of a variable. -/
def variableModifiers : Reader Unit :=
  whileSees (do return (← sees ["final"]) || (← seesMark)) do
    if ← sees ["final"] then
      let _ ← next
    else self .mark

/-! ## Variables and parameters -/

/-- What follows the name of a variable. -/
def variableRest : Reader Unit := do
  dimensions
  if ← take? ["="] then self .initializer

def variableDeclarator : Reader Unit := do
  let _ ← identifier
  variableRest self

/-- What follows the name of a constant, which has to have a value. -/
def constantRest : Reader Unit := do
  dimensions
  accept "="
  self .initializer

def constantsRest : Reader Unit := do
  constantRest self
  whileSees (take? [","]) do
    let _ ← identifier
    constantRest self

def initializer : Reader Unit := do
  if ← take? ["\x7b"] then
    if ← take? [","] then accept "\x7d"
    else if !(← take? ["\x7d"]) then
      repeatUntil (self .initializer) do
        if !(← sees ["\x7d"]) then accept ","
        take? ["\x7d"]
  else self .expression

/-- Parameters up to the closing parenthesis; one that takes all the rest is the last. -/
def formalParameters : Reader Unit := do
  accept "("
  if !(← take? [")"]) then
    let item : Reader Bool := do
      variableModifiers self
      let _ ← type
      let takesRest ← take? ["..."]
      let _ ← identifier
      dimensions
      return takesRest
    let rec items : Nat → Reader Unit
      | 0 => refuse
      | n + 1 => do
        if !(← item) && (← take? [","]) then items n
    items ((← get).length + 1)
    accept ")"

/-! ## Members -/

def throwsIfAny : Reader Unit := do
  if ← take? ["throws"] then
    separated "," (do let _ ← qualifiedName)

def blockOrNone : Reader Unit := do
  if ← sees ["\x7b"] then self .block else accept ";"

/-- What follows the name of a method that gives nothing back. -/
def voidMethodRest : Reader Unit := do
  formalParameters self
  throwsIfAny
  blockOrNone self

def methodRest : Reader Unit := do
  formalParameters self
  dimensions
  throwsIfAny
  blockOrNone self

def constructorRest : Reader Unit := do
  formalParameters self
  throwsIfAny
  self .block

/-- A method or a constructor with type parameters. -/
def genericMember : Reader Unit := do
  typeParameters
  if ← seesWordThen "(" then
    let _ ← identifier
    constructorRest self
  else if ← take? ["void"] then
    let _ ← identifier
    voidMethodRest self
  else
    let _ ← type
    let _ ← identifier
    methodRest self

def methodOrField : Reader Unit := do
  let _ ← type
  let _ ← identifier
  if ← sees ["("] then methodRest self
  else
    variableRest self
    whileSees (take? [","]) (variableDeclarator self)
    accept ";"

/-! ## Declarations -/

/-- The head of a class: its name, and by their last names the class above it and the interfaces it has. -/
structure ClassHead where
  name : String
  base : Option String
  interfaces : List String

def classHead : Reader ClassHead := do
  accept "class"
  let name ← identifier
  typeParametersIfAny
  let base ← if ← take? ["extends"] then (do return some (← type)) else pure none
  let interfaces ← if ← take? ["implements"] then typeList else pure []
  return ⟨name, base, interfaces⟩

def body (item : Reader Unit) : Reader Unit := do
  accept "\x7b"
  whileSees (do return !(← sees ["\x7d"])) item
  accept "\x7d"

def nestedDeclarationStarts : List String := ["class", "enum", "interface"]

def seesDeclaration : Reader Bool := do
  return (← seesOneOf nestedDeclarationStarts) || (← sees ["@", "interface"])

/-- One entry in the body of a class. -/
def classBodyEntry (bare : Reader Unit) : Reader Unit := do
  if ← take? [";"] then return
  else if ← sees ["static", "\x7b"] then
    let _ ← next
    self .block
  else if ← sees ["\x7b"] then self .block
  else
    modifiersAnd self
    if ← take? ["void"] then
      let _ ← identifier
      voidMethodRest self
    else if ← sees ["<"] then genericMember self
    else if ← seesDeclaration then bare
    else if ← seesWordThen "(" then
      let _ ← identifier
      constructorRest self
    else methodOrField self

def interfaceEntry (bare : Reader Unit) : Reader Unit := do
  if ← take? [";"] then return
  else
    modifiersAnd self
    if ← seesDeclaration then bare
    else if ← sees ["<"] then
      typeParameters
      if !(← take? ["void"]) then
        let _ ← type
      let _ ← identifier
      methodRest self
    else if ← take? ["void"] then
      let _ ← identifier
      voidMethodRest self
    else
      let _ ← type
      let _ ← identifier
      if ← sees ["("] then methodRest self
      else
        constantsRest self
        accept ";"

def markTypeEntry (bare : Reader Unit) : Reader Unit := do
  modifiersAnd self
  if ← seesDeclaration then bare
  else
    let _ ← type
    let _ ← identifier
    if ← take? ["("] then
      accept ")"
      dimensions
      if ← take? ["default"] then self .elementValue
    else constantsRest self
    accept ";"

def arguments : Reader Unit := do
  accept "("
  if !(← take? [")"]) then
    separated "," (self .expression)
    accept ")"

def enumConstant : Reader Unit := do
  if ← seesMark then
    repeatUntil (self .mark) (do return !(← seesMark))
  let _ ← identifier
  if ← sees ["("] then arguments self
  if ← sees ["\x7b"] then self .classBody

def enumBody (bare : Reader Unit) : Reader Unit := do
  accept "\x7b"
  if !(← take? [","]) then
    if !((← sees [";"]) || (← sees ["\x7d"])) then
      repeatUntil (enumConstant self) do
        if ← take? [","] then return (← sees [";"]) || (← sees ["\x7d"])
        else return true
  if ← take? [";"] then
    whileSees (do return !(← sees ["\x7d"])) (classBodyEntry self bare)
  accept "\x7d"

/-- A declaration without its modifiers.  Those inside it are read by `nested`. -/
def bareDeclarationWith (nested : Reader Unit) : Reader Unit := do
  if ← sees ["class"] then
    let _ ← classHead
    self .classBody
  else if ← take? ["enum"] then
    let _ ← identifier
    if ← take? ["implements"] then
      let _ ← typeList
    enumBody self nested
  else if ← take? ["interface"] then
    let _ ← identifier
    typeParametersIfAny
    if ← take? ["extends"] then
      let _ ← typeList
    body (interfaceEntry self nested)
  else if ← take? ["@", "interface"] then
    let _ ← identifier
    body (markTypeEntry self nested)
  else refuse

/-- A declaration whose modifiers have been read.  Another round of modifiers finds none. -/
def bareDeclaration : Reader Unit := bareDeclarationWith self (self .declaration)

def classBody : Reader Unit := body (classBodyEntry self (bareDeclaration self))

def declaration : Reader Unit := do
  modifiersAnd self
  bareDeclaration self

/-! ## Expressions -/

def assignments : List String := ["=", "+=", "-=", "*=", "/=", "&=", "|=", "^=", "%=", "<<=", ">>=", ">>>="]

def infixOperators : List String := [
  "||", "&&", "|", "^", "&", "==", "!=", "<", ">", "<=", ">=", "<<", ">>", ">>>", "+", "-", "*", "/", "%"]

def prefixOperators : List String := ["++", "--", "!", "~", "+", "-"]

def postfixOperators : List String := ["++", "--"]

def expression : Reader Unit := do
  self .conditional
  if ← seesOneOf assignments then
    let _ ← next
    self .expression

def infixRest : Reader Unit := do
  if ← take? ["instanceof"] then
    let _ ← type
  else
    let operator ← next
    if operator.text = ">" then
      if ← take? [">"] then
        let _ ← take? [">"]
    self .operand

def lambdaBody : Reader Unit := do
  accept "->"
  if ← sees ["\x7b"] then self .block else self .expression

def methodReference : Reader Unit := do
  if ← sees ["<"] then plainTypeArguments
  if ← sees ["new"] then accept "new" else self .expression

def conditional : Reader Unit := do
  self .operand
  whileSees (do return (← seesOneOf infixOperators) || (← sees ["instanceof"])) (infixRest self)
  if ← take? ["?"] then
    self .expression
    accept ":"
    self .conditional
  else if ← sees ["->"] then lambdaBody self
  else if ← take? ["::"] then methodReference self

def lambda : Reader Unit := do
  if (← sees ["("]) && (← kindAhead 1) == some .identifier && (← ahead 2) == some "," then
    accept "("
    separated "," (do let _ ← identifier)
    accept ")"
  else formalParameters self
  lambdaBody self

def cast : Reader Unit := do
  accept "("
  let _ ← type
  accept ")"
  self .operand

def superRest : Reader Unit := do
  if ← take? ["."] then
    if ← sees ["<"] then plainTypeArguments
    let _ ← identifier
    if ← sees ["("] then arguments self
  else arguments self

def genericInvocation : Reader Unit := do
  plainTypeArguments
  if ← take? ["super"] then superRest self
  else
    let _ ← identifier
    arguments self

def classCreatorRest : Reader Unit := do
  arguments self
  if ← sees ["\x7b"] then self .classBody

def innerCreator : Reader Unit := do
  if ← sees ["<"] then plainTypeArguments
  let _ ← identifier
  if ← sees ["<"] then plainTypeArgumentsOrNone
  classCreatorRest self

def arrayCreatorRest : Reader Unit := do
  if ← sees ["[", "]"] then
    dimensions
    if ← sees ["\x7b"] then self .initializer else accept "\x7b"
  else
    whileSees (do return (← sees ["["]) && !(← sees ["[", "]"])) do
      accept "["
      self .expression
      accept "]"
    dimensions

def creator : Reader Unit := do
  if ← seesKind .primitive then
    let _ ← next
    arrayCreatorRest self
  else
    let hasArguments ← sees ["<"]
    if hasArguments then plainTypeArguments
    separated "." do
      let _ ← identifier
      if ← sees ["<"] then typeArgumentsOrNone
    if ← sees ["["] then
      if hasArguments then refuse else arrayCreatorRest self
    else classCreatorRest self

/-- What may follow a name with dots in it. -/
def nameRest : Reader Unit := do
  if ← take? ["[", "]"] then
    dimensions
    accept "."
    accept "class"
  else if ← sees ["("] then arguments self
  else if ← take? [".", "class"] then return
  else if ← take? [".", "this"] then return
  else if ← sees [".", "<"] then
    let _ ← next
    genericInvocation self
  else if ← take? [".", "new"] then innerCreator self
  else if ← sees [".", "super", "("] then
    accept "."
    accept "super"
    arguments self

def primary : Reader Unit := do
  if ← seesKind .literal then
    let _ ← next
  else if ← take? ["("] then
    self .expression
    accept ")"
  else if ← take? ["this"] then
    if ← sees ["("] then arguments self
  else if ← sees ["super", "::"] then accept "super"
  else if ← take? ["super"] then superRest self
  else if ← take? ["new"] then creator self
  else if ← sees ["<"] then
    plainTypeArguments
    if ← take? ["this"] then arguments self
    else if ← take? ["super"] then superRest self
    else
      let _ ← identifier
      arguments self
  else if ← seesKind .identifier then
    let _ ← identifier
    whileSees (do return (← sees ["."]) && (← kindAhead 1) == some .identifier) do
      accept "."
      let _ ← identifier
    nameRest self
  else if ← seesKind .primitive then
    let _ ← next
    dimensions
    accept "."
    accept "class"
  else if ← take? ["void"] then
    accept "."
    accept "class"
  else refuse

def selector : Reader Unit := do
  if ← take? ["["] then
    self .expression
    accept "]"
  else
    accept "."
    if ← seesKind .identifier then
      let _ ← identifier
      if ← sees ["("] then arguments self
    else if ← sees ["super", "::"] then accept "super"
    else if ← sees ["<"] then genericInvocation self
    else if ← take? ["this"] then return
    else if ← take? ["super"] then superRest self
    else if ← take? ["new"] then innerCreator self
    else refuse

/-- A selector comes next.  Here the tokens must not have ended. -/
def seesSelector : Reader Bool := do
  match ← ahead 0 with
  | none => throw .openEnded
  | some text => return text == "[" || text == "."

def primaryWithRest : Reader Unit := do
  primary self
  whileSees seesSelector (selector self)
  whileSees (seesOneOf postfixOperators) (do let _ ← next)

def operand : Reader Unit := do
  whileSees (seesOneOf prefixOperators) (do let _ ← next)
  if ← sees ["("] then orElse (lambda self) (orElse (cast self) (primaryWithRest self))
  else primaryWithRest self

/-! ## Statements -/

/-- What the first tokens of a statement in a block make it. -/
inductive Lead where
  | declaration
  | variableDeclaration
  | statement
  | unsure

/-- What follows the parenthesis that closes `depth` open ones. -/
def afterParentheses : (depth : Nat) → List Token → List Token
  | 0, ts => ts
  | _ + 1, [] => []
  | d + 1, t :: ts =>
    if t.text = "(" then afterParentheses (d + 2) ts
    else if t.text = ")" then afterParentheses d ts
    else afterParentheses (d + 1) ts

/-- Passes over the further parts of a name with dots. -/
def afterDots : List Token → List Token
  | [] => []
  | [t] => if t.text = "." then [] else [t]
  | t :: u :: ts => if t.text = "." then afterDots ts else t :: u :: ts

/-- Looks past annotations and `final`.  Behind an annotation without parentheses one token is not looked at. -/
def leadOf : Nat → (annotated : Bool) → List Token → Lead
  | 0, _, _ => .statement
  | _ + 1, annotated, [] => if annotated then .variableDeclaration else .statement
  | n + 1, annotated, t :: ts =>
    if t.kind = .modifier then
      if t.text = "final" then leadOf n annotated ts else .declaration
    else if t.text = "@" && (ts.head?.map Token.text) != some "interface" then
      match afterDots (ts.drop 1) with
      | [] => .variableDeclaration
      | u :: us => leadOf n true (if u.text = "(" then afterParentheses 1 us else us)
    else if t.text = "@" || nestedDeclarationStarts.contains t.text then .declaration
    else if annotated || t.kind = .primitive then .variableDeclaration
    else if t.kind = .identifier then .unsure
    else .statement

def localVariable : Reader Unit := do
  variableModifiers self
  let _ ← type
  separated "," (variableDeclarator self)
  accept ";"

def block : Reader Unit := body (self .blockStatement)

def blockStatement : Reader Unit := do
  if (← seesWordThen ":") || (← sees ["synchronized"]) then self .statement
  else
    let ts ← get
    match leadOf (ts.length + 1) false ts with
    | .declaration => self .declaration
    | .variableDeclaration => localVariable self
    | .statement => self .statement
    | .unsure => orElse (localVariable self) (self .statement)

def parenthesized : Reader Unit := do
  accept "("
  self .expression
  accept ")"

def expressions : Reader Unit := separated "," (self .expression)

/-- The last two parts of a loop head. -/
def loopTail : Reader Unit := do
  accept ";"
  if !(← sees [";"]) then self .expression
  accept ";"
  if !(← sees [")"]) then expressions self

/-- The head of a loop that declares a variable. -/
def loopWithVariable : Reader Unit := do
  variableModifiers self
  let _ ← type
  let _ ← identifier
  dimensions
  if ← take? [":"] then self .expression
  else
    if !(← sees [";"]) then
      if ← take? ["="] then self .initializer
      whileSees (take? [","]) (variableDeclarator self)
    loopTail self

def loopHead : Reader Unit :=
  orElse (loopWithVariable self) do
    if !(← sees [";"]) then expressions self
    loopTail self

def catchClause : Reader Unit := do
  accept "catch"
  accept "("
  variableModifiers self
  separated "|" (do let _ ← qualifiedName)
  let _ ← identifier
  accept ")"
  self .block

def resource : Reader Unit := do
  variableModifiers self
  let _ ← namedType
  dimensions
  let _ ← identifier
  dimensions
  accept "="
  self .expression

def resources : Reader Unit := do
  accept "("
  repeatUntil (resource self) do
    if !(← sees [")"]) then accept ";"
    take? [")"]

/-- A try statement behind its keyword.  Without resources something has to follow its block. -/
def tryRest : Reader Unit := do
  let isPlain ← sees ["\x7b"]
  if !isPlain then resources self
  self .block
  let hasCatch ← sees ["catch"]
  whileSees (sees ["catch"]) (catchClause self)
  if ← take? ["finally"] then self .block
  else if isPlain && !hasCatch then refuse

def switchLabels : List String := ["case", "default"]

def switchLabel : Reader Unit := do
  let t ← next
  if t.text = "case" then
    if ← seesWordThen ":" then
      let _ ← identifier
    else self .expression
  else if t.text != "default" then refuse
  accept ":"

def switchGroup : Reader Unit := do
  repeatUntil (switchLabel self) (do return !(← seesOneOf switchLabels))
  whileSees (do return !((← seesOneOf switchLabels) || (← sees ["\x7d"]))) (self .blockStatement)

/-- A jump with the label it may have. -/
def jumpRest : Reader Unit := do
  if ← seesKind .identifier then
    let _ ← identifier
  accept ";"

def statement : Reader Unit := do
  if ← sees ["\x7b"] then self .block
  else if ← take? [";"] then return
  else if ← seesWordThen ":" then
    let _ ← identifier
    accept ":"
    self .statement
  else if ← take? ["if"] then
    parenthesized self
    self .statement
    if ← take? ["else"] then self .statement
  else if ← take? ["assert"] then
    self .expression
    if ← take? [":"] then self .expression
    accept ";"
  else if ← take? ["switch"] then
    parenthesized self
    accept "\x7b"
    whileSees (seesOneOf switchLabels) (switchGroup self)
    accept "\x7d"
  else if ← take? ["while"] then
    parenthesized self
    self .statement
  else if ← take? ["do"] then
    self .statement
    accept "while"
    parenthesized self
    accept ";"
  else if ← take? ["for"] then
    accept "("
    loopHead self
    accept ")"
    self .statement
  else if ← take? ["break"] then jumpRest
  else if ← take? ["continue"] then jumpRest
  else if ← take? ["return"] then
    if !(← sees [";"]) then self .expression
    accept ";"
  else if ← take? ["throw"] then
    self .expression
    accept ";"
  else if ← take? ["synchronized"] then
    parenthesized self
    self .block
  else if ← take? ["try"] then tryRest self
  else
    self .expression
    accept ";"

/-! ## All rules -/

def rule (self : Rules) : Rules
  | .mark => mark self
  | .elementValue => elementValue self
  | .expression => expression self
  | .conditional => conditional self
  | .operand => operand self
  | .initializer => initializer self
  | .block => block self
  | .statement => statement self
  | .blockStatement => blockStatement self
  | .classBody => classBody self
  | .declaration => declaration self

/-- The reader of a symbol.  The first argument bounds the depth. -/
def read : Nat → Rules
  | 0, _ => refuse
  | n + 1, s => rule (read n) s

/-- How many symbols at most are open in one place of a text. -/
def symbolsPerToken : Nat := 12

def rules (tokens : List Token) : Rules := read (symbolsPerToken * (tokens.length + 2))

end Grammar
end Java
end ModuleLink
