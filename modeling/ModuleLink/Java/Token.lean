import ModuleLink.Text.Classes
import ModuleLink.Text.Search

/-!
Tokens of Java 8.
-/

namespace ModuleLink
namespace Java

inductive Kind where
  | identifier
  | keyword
  | modifier
  | primitive
  | literal
  /-- A separator, an operator or an at sign. -/
  | sign
deriving DecidableEq

structure Token where
  kind : Kind
  text : String
deriving DecidableEq

/-! ## Vocabulary -/

def modifiers : List String := [
  "abstract", "default", "final", "native", "private", "protected", "public", "static", "strictfp", "synchronized",
  "transient", "volatile"]

def primitives : List String := ["boolean", "byte", "char", "double", "float", "int", "long", "short"]

def otherKeywords : List String := [
  "assert", "break", "case", "catch", "class", "const", "continue", "do", "else", "enum", "extends", "finally", "for",
  "goto", "if", "implements", "import", "instanceof", "interface", "new", "package", "return", "super", "switch",
  "this", "throw", "throws", "try", "void", "while"]

def namedLiterals : List String := ["true", "false", "null"]

/-- The kind of a word. -/
def kindOf (word : String) : Kind :=
  if modifiers.contains word then .modifier
  else if primitives.contains word then .primitive
  else if otherKeywords.contains word then .keyword
  else if namedLiterals.contains word then .literal
  else .identifier

/-- Operators, longer ones first.  Shifts to the right are left out: their signs also close lists of types. -/
def operators : List (List Char) := [
  ">>>=".toList, ">>=".toList, "<<=".toList, "...".toList, "%=".toList, "^=".toList, "|=".toList, "&=".toList,
  "/=".toList, "*=".toList, "-=".toList, "+=".toList, "<<".toList, "--".toList, "++".toList, "||".toList, "&&".toList,
  "!=".toList, ">=".toList, "<=".toList, "==".toList, "->".toList, "::".toList, ['%'], ['^'], ['|'], ['&'], ['/'],
  ['*'], ['-'], ['+'], [':'], ['?'], ['~'], ['!'], ['<'], ['>'], ['=']]

def isSeparator (c : Char) : Bool :=
  c == '(' || c == ')' || c == '\x7b' || c == '\x7d' || c == '[' || c == ']' || c == ';' || c == ',' || c == '.'

/-! ## Characters -/

def isWordStart (c : Char) : Bool :=
  if Text.isAscii c then c.isAlpha || c == '_' || c == '$'
  else Text.Ranges.has Text.Ranges.letters c || Text.Ranges.has Text.Ranges.letterNumbers c ||
    Text.Ranges.has Text.Ranges.connectors c || Text.Ranges.has Text.Ranges.currencies c

def isWordChar (c : Char) : Bool :=
  if Text.isAscii c then c.isAlphanum || c == '_' || c == '$'
  else isWordStart c || Text.Ranges.has Text.Ranges.marks c || Text.Ranges.has Text.Ranges.decimals c

def hexValue? (c : Char) : Option Nat :=
  if c.isDigit then some (c.toNat - 48)
  else if 'a' ≤ c && c ≤ 'f' then some (c.toNat - 87)
  else if 'A' ≤ c && c ≤ 'F' then some (c.toNat - 55)
  else none

def isHex (c : Char) : Bool := (hexValue? c).isSome

def isOctal (c : Char) : Bool := '0' ≤ c && c ≤ '7'

def isBinary (c : Char) : Bool := c == '0' || c == '1'

/-- The character with a hexadecimal number of at most four digits; half a pair becomes a replacement mark. -/
def escapedChar? (digits : List Char) : Option Char := do
  if digits.isEmpty then none
  else
    let n ← digits.foldlM (fun n c => (hexValue? c).map fun d => 16 * n + d) 0
    return if 0xD800 ≤ n && n < 0xE000 then '\ufffd' else Char.ofNat n

/-- The source with the escapes for characters replaced, which count everywhere.  The first argument bounds the number
of characters. -/
def unescapeFrom : Nat → List Char → Option (List Char)
  | 0, _ => none
  | _ + 1, [] => some []
  | n + 1, '\\' :: 'u' :: rest =>
    match rest.dropWhile (· == 'u') with
    | [] => some ('\\' :: 'u' :: rest)
    | digits => do
      let c ← escapedChar? (digits.take 4)
      let tail ← unescapeFrom n (digits.drop 4)
      return c :: tail
  | n + 1, '\\' :: c :: rest => (unescapeFrom n rest).map fun tail => '\\' :: c :: tail
  | n + 1, c :: rest => (unescapeFrom n rest).map (c :: ·)

def unescape (cs : List Char) : Option (List Char) := unescapeFrom (cs.length + 1) cs

/-! ## Literals

Each function gives what follows the literal. -/

/-- What follows digits with underscores between them and the mark of a long number.  `done` is what follows the last
digit so far. -/
def afterDigits (isDigit : Char → Bool) (done : List Char) : List Char → List Char
  | [] => done
  | c :: cs =>
    if isDigit c then afterDigits isDigit cs cs
    else if c == '_' then afterDigits isDigit done cs
    else if c == 'l' || c == 'L' then done.drop 1
    else done

def optionalSign (cs : List Char) : List Char :=
  match cs with
  | c :: rest => if c == '+' || c == '-' then rest else cs
  | [] => []

def optionalWidth (cs : List Char) : List Char :=
  match cs with
  | c :: rest => if c == 'f' || c == 'F' || c == 'd' || c == 'D' then rest else cs
  | [] => []

/-- Passes over a point and the digits behind it. -/
def afterFraction (isDigit : Char → Bool) (cs : List Char) : List Char :=
  match cs with
  | '.' :: rest => afterDigits isDigit rest rest
  | _ => cs

def afterDecimal (cs : List Char) : List Char :=
  let cs := afterDigits Char.isDigit cs cs
  let cs := afterFraction Char.isDigit cs
  let cs := match cs with
    | c :: rest =>
      if c == 'e' || c == 'E' then let rest := optionalSign rest; afterDigits Char.isDigit rest rest else cs
    | [] => []
  optionalWidth cs

/-- What follows a hexadecimal number from behind its mark on.  With a point it has to have an exponent. -/
def afterHex? (cs : List Char) : Option (List Char) :=
  let whole := afterDigits isHex cs cs
  match whole with
  | [] => some []
  | c :: _ =>
    if c != '.' && c != 'p' && c != 'P' then some whole
    else
      match afterFraction isHex whole with
      | p :: rest =>
        if p == 'p' || p == 'P' then
          let rest := optionalSign rest
          some (optionalWidth (afterDigits Char.isDigit rest rest))
        else none
      | [] => none

def afterNumber? (cs : List Char) : Option (List Char) :=
  match cs with
  | '0' :: c :: rest =>
    if c == 'x' || c == 'X' then afterHex? rest
    else if c == 'b' || c == 'B' then some (afterDigits isBinary rest rest)
    else if isOctal c then some (afterDigits isOctal (c :: rest) (c :: rest))
    else some (afterDecimal cs)
  | _ => some (afterDecimal cs)

/-- A character that may stand behind a backslash. -/
def isEscapable (c : Char) : Bool := isOctal c || "btnfru\"'\\".toList.contains c

/-- What follows a text or a character from behind its opening quote on.  It may run over several lines. -/
def afterQuoted? (quote : Char) : List Char → Option (List Char)
  | [] => none
  | ['\\'] => none
  | '\\' :: c :: cs => if isEscapable c then afterQuoted? quote cs else none
  | c :: cs => if c = quote then some cs else afterQuoted? quote cs

/-! ## Scanning -/

/-- What follows a comment from behind its opening on. -/
def afterComment? (block : Bool) (cs : List Char) : Option (List Char) :=
  if block then (Text.indexOf? "*/".toList cs).map fun n => cs.drop (n + 2)
  else some ((cs.dropWhile (· != '\n')).drop 1)

/-- The word, sign or literal at the front with what follows it; comments and white space are passed over before. -/
inductive Front where
  | gap (rest : List Char)
  | token (kind : Kind) (rest : List Char)

def front? (cs : List Char) : Option Front :=
  match cs with
  | [] => none
  | c :: rest =>
    let next := rest.head?.getD ' '
    if Text.isBlank c then some (.gap rest)
    else if c == '/' && (next == '/' || next == '*') then
      (afterComment? (next == '*') (rest.drop 1)).map .gap
    else if c == '@' then some (.token .sign rest)
    else if c == '.' && Text.isDecimal next then some (.token .literal (afterDecimal cs))
    else
      match Text.after? "...".toList cs with
      | some rest => some (.token .sign rest)
      | none =>
        if isSeparator c then some (.token .sign rest)
        else if c == '"' || c == '\'' then (afterQuoted? c rest).map (.token .literal)
        else if c.isDigit then (afterNumber? cs).map (.token .literal)
        else if isWordStart c then some (.token .identifier (rest.dropWhile isWordChar))
        else (operators.findSome? fun op => Text.after? op cs).map (.token .sign)

/-- The kind of a token found; words are told apart by their text. -/
def tokenOf (kind : Kind) (text : String) : Token :=
  if kind = .identifier then ⟨kindOf text, text⟩ else ⟨kind, text⟩

/-- The tokens of a text without escapes.  The first argument bounds their number. -/
def tokensFrom : Nat → List Char → Option (List Token)
  | 0, _ => none
  | _ + 1, [] => some []
  | n + 1, cs => do
    match ← front? cs with
    | .gap rest => tokensFrom n rest
    | .token kind rest =>
      let tokens ← tokensFrom n rest
      return tokenOf kind (String.ofList (cs.take (cs.length - rest.length))) :: tokens

/-- The tokens of a source, if it has no others. -/
def tokens? (source : String) : Option (List Token) := do
  let cs ← unescape source.toList
  tokensFrom (cs.length + 1) cs

end Java
end ModuleLink
