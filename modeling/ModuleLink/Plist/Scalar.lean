/-!
Scalars of a property list: the plain text of a value, its written form, and the way between the two.
-/

namespace ModuleLink
namespace Plist

/-- A scalar exactly as it is written, with the comment that follows it. -/
structure Scalar where
  text : String
  comment : Option String := none
deriving BEq, DecidableEq, Inhabited

/-! ## Quoting -/

/-- A character that needs no quotes around it. -/
def isBare (c : Char) : Bool :=
  c.isAlphanum || c == '_' || c == '$' || c == '/' || c == ':' || c == '.'

def escapeChar (c : Char) : List Char :=
  if c = '\\' then ['\\', '\\']
  else if c = '"' then ['\\', '"']
  else if c = '\n' then ['\\', 'n']
  else if c = '\t' then ['\\', 't']
  else [c]

def escape (cs : List Char) : List Char := cs.flatMap escapeChar

/-- The character that a backslash before `c` stands for. -/
def escaped (c : Char) : Char :=
  if c = 'n' then '\n' else if c = 't' then '\t' else c

/-- A backslash takes the next character with it, except a line feed. -/
def unescape : List Char → List Char
  | [] => []
  | ['\\'] => ['\\']
  | '\\' :: c :: cs => if c = '\n' then '\\' :: '\n' :: unescape cs else escaped c :: unescape cs
  | c :: cs => c :: unescape cs

/-- The written form of a text: bare where that is possible, quoted otherwise. -/
def quoteChars (cs : List Char) : List Char :=
  if !cs.isEmpty && cs.all isBare then cs else '"' :: escape cs ++ ['"']

/-- What stands between the quotes of a quoted scalar. -/
def quotedBody? : List Char → Option (List Char)
  | '"' :: rest => if rest.getLast? = some '"' then some rest.dropLast else none
  | _ => none

/-- The text that a written scalar stands for. -/
def unquoteChars (cs : List Char) : List Char :=
  match quotedBody? cs with
  | some body => unescape body
  | none => cs

def quote (s : String) : String := String.ofList (quoteChars s.toList)

def unquote (s : String) : String := String.ofList (unquoteChars s.toList)

namespace Scalar

/-- The scalar that stands for a text. -/
def of (value : String) (comment : Option String := none) : Scalar := ⟨quote value, comment⟩

def value (s : Scalar) : String := unquote s.text

end Scalar

end Plist
end ModuleLink
