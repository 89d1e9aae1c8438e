import ModuleLink.Markup.Encoding
import ModuleLink.Text.Search

/-!
Documents as XML 1.0 with namespaces has them.  A document is read for the tag of its root element; all the rest is only
checked.  Of the declarations in a document type, those of entities are used and the others are passed over.
-/

namespace ModuleLink
namespace Markup

/-! ## Names and references -/

/-- A name without a colon. -/
def plainName? : List Char → Option (List Char × List Char)
  | c :: cs => if isNameStart c then some (c :: cs.takeWhile isNamePart, cs.dropWhile isNamePart) else none
  | [] => none

/-- A name with the namespace prefix before its colon, if it has one. -/
structure Name where
  scope : Option (List Char)
  part : List Char
deriving BEq, DecidableEq

def name? (cs : List Char) : Option (Name × List Char) := do
  let (first, rest) ← plainName? cs
  match rest with
  | ':' :: rest =>
    let (second, rest) ← plainName? rest
    match rest with
    | ':' :: _ => none
    | _ => return (⟨some first, second⟩, rest)
  | _ => return (⟨none, first⟩, rest)

inductive Reference where
  | character (c : Char)
  | entity (name : List Char)

/-- The character with a number, if a document may hold it. -/
def characterAt? (n : Nat) : Option Char :=
  if h : n.isValidChar then
    let c := Char.ofNatAux n h
    if isAllowed c then some c else none
  else none

def digitsValue (base : Nat) (cs : List Char) : Nat :=
  cs.foldl (fun n c =>
    base * n + (if c.isDigit then c.toNat - 48 else if 'a' ≤ c then c.toNat - 87 else c.toNat - 55)) 0

def isHexDigit (c : Char) : Bool := c.isDigit || ('a' ≤ c && c ≤ 'f') || ('A' ≤ c && c ≤ 'F')

/-- A reference from behind its ampersand on. -/
def reference? (cs : List Char) : Option (Reference × List Char) :=
  let numbered (base : Nat) (isDigit : Char → Bool) (cs : List Char) : Option (Reference × List Char) :=
    let digits := cs.takeWhile isDigit
    match digits.isEmpty, cs.dropWhile isDigit with
    | false, ';' :: rest => (characterAt? (digitsValue base digits)).map fun c => (.character c, rest)
    | _, _ => none
  match cs with
  | '#' :: 'x' :: cs => numbered 16 isHexDigit cs
  | '#' :: cs => numbered 10 Char.isDigit cs
  | _ => do
    let (name, rest) ← plainName? cs
    match rest with
    | ';' :: rest => return (.entity name, rest)
    | _ => none

/-- The entities that every document has. -/
def predefined? (name : List Char) : Option Char :=
  if name == "lt".toList then some '<'
  else if name == "gt".toList then some '>'
  else if name == "amp".toList then some '&'
  else if name == "apos".toList then some '\''
  else if name == "quot".toList then some '"'
  else none

/-! ## Entities -/

/-- An entity by what it stands for. -/
inductive Entity where
  | text (cs : List Char)
  /-- The text is kept elsewhere. -/
  | outside

/-- The declared entities. -/
structure Entities where
  entries : List (List Char × Entity) := []
  /-- The document stands alone: it has no declarations elsewhere. -/
  standsAlone : Bool := false
  /-- There are declarations elsewhere, so an unknown name may be declared. -/
  isOpen : Bool := false
  /-- No more declarations count. -/
  isFrozen : Bool := false

namespace Entities

def get? (es : Entities) (name : List Char) : Option Entity := es.entries.lookup name

/-- Of two declarations of one name the first counts. -/
def declare (es : Entities) (name : List Char) (e : Entity) : Entities :=
  if es.isFrozen || (es.get? name).isSome then es else { es with entries := es.entries ++ [(name, e)] }

/-- There is a text with declarations elsewhere. -/
def extend (es : Entities) : Entities := { es with isOpen := !es.standsAlone }

/-- There is a text with declarations elsewhere, which goes before those that follow. -/
def interrupt (es : Entities) : Entities := { es with isOpen := !es.standsAlone, isFrozen := !es.standsAlone }

/-- The entities inside the text of one of them, which may not refer to itself. -/
def without (es : Entities) (name : List Char) : Entities :=
  { es with entries := es.entries.filter fun e => e.1 != name }

end Entities

/-- The text with all references replaced.  An attribute value holds no tags. -/
def expandWith (expand : List Char → Option (List Char)) : Nat → List Char → Option (List Char)
  | 0, _ => none
  | _ + 1, [] => some []
  | n + 1, c :: cs =>
    if c = '<' then none
    else if c = '&' then do
      let (r, rest) ← reference? cs
      let front ← match r with
        | .character c => some [c]
        | .entity name =>
          match predefined? name with
          | some c => some [c]
          | none => expand name
      let tail ← expandWith expand n rest
      return front ++ tail
    else (expandWith expand n cs).map fun tail => (if isSpace c then ' ' else c) :: tail

/-- The text of an entity inside an attribute value.  The first argument bounds the depth. -/
def entityValue : Nat → Entities → List Char → Option (List Char)
  | 0, _, _ => none
  | n + 1, es, name =>
    match es.get? name with
    | some (.text cs) => expandWith (entityValue n (es.without name)) (cs.length + 1) cs
    | some .outside => none
    | none => if es.isOpen then some [] else none

/-- The value of an attribute as it stands between its quotes. -/
def attributeValue (es : Entities) (cs : List Char) : Option (List Char) :=
  expandWith (entityValue (es.entries.length + 1) es) (cs.length + 1) cs

/-! ## Tags -/

structure Tag where
  name : Name
  attributes : List (Name × List Char)

/-- A text between quotes of either kind. -/
def quoted? : List Char → Option (List Char × List Char)
  | q :: cs =>
    if q = '"' || q = '\'' then
      match cs.dropWhile (· != q) with
      | _ :: rest => some (cs.takeWhile (· != q), rest)
      | [] => none
    else none
  | [] => none

/-- The attributes of a tag up to its end, which says whether the element is empty. -/
def attributes? (es : Entities) : Nat → List Char → Option (List (Name × List Char) × Bool × List Char)
  | 0, _ => none
  | n + 1, cs =>
    match cs.dropWhile isSpace with
    | '>' :: rest => some ([], false, rest)
    | '/' :: '>' :: rest => some ([], true, rest)
    | next => do
      if next.length = cs.length then none
      else
        let (name, rest) ← name? next
        match rest.dropWhile isSpace with
        | '=' :: rest =>
          let (written, rest) ← quoted? (rest.dropWhile isSpace)
          let value ← attributeValue es written
          let (more, empty, rest) ← attributes? es n rest
          return ((name, value) :: more, empty, rest)
        | _ => none

/-- A start tag from behind its angle bracket on. -/
def tag? (es : Entities) (cs : List Char) : Option (Tag × Bool × List Char) := do
  let (name, rest) ← name? cs
  let (attributes, empty, rest) ← attributes? es (rest.length + 1) rest
  return (⟨name, attributes⟩, empty, rest)

/-- What follows the end tag of an element. -/
def endTag? (name : Name) (cs : List Char) : Option (List Char) := do
  let rest ← Text.after? "</".toList cs
  let (found, rest) ← name? rest
  if found != name then none
  else Text.after? ['>'] (rest.dropWhile isSpace)

/-! ## Namespaces -/

/-- The namespaces by their prefixes; the prefix of the default one is empty. -/
abbrev Scope := List (List Char × List Char)

def xmlNamespace : List Char := "http://www.w3.org/XML/1998/namespace".toList

def xmlnsNamespace : List Char := "http://www.w3.org/2000/xmlns/".toList

def declarationPrefix : List Char := "xmlns".toList

/-- The namespace that an attribute declares: its prefix. -/
def declares? (a : Name) : Option (List Char) :=
  match a.scope with
  | none => if a.part == declarationPrefix then some [] else none
  | some p => if p == declarationPrefix then some a.part else none

/-- A prefix may be bound to a namespace: the two names of the standard only to each other, and none to nothing. -/
def mayBind (p uri : List Char) : Bool :=
  p != declarationPrefix && (p == "xml".toList) == (uri == xmlNamespace) && uri != xmlnsNamespace &&
    (p.isEmpty || !uri.isEmpty) && !uri.contains '\x7d'

def bind (scope : Scope) (attributes : List (Name × List Char)) : Option Scope :=
  attributes.foldlM (fun scope (name, value) =>
    match declares? name with
    | some p => if mayBind p value then some ((p, value) :: scope) else none
    | none => some scope) scope

/-- The namespace of a name with a prefix. -/
def namespaceOf? (scope : Scope) (n : Name) : Option (List Char) :=
  match n.scope with
  | none => some []
  | some p => if p == "xml".toList then some xmlNamespace else scope.lookup p

/-- No entry comes twice. -/
def allDistinct {α : Type} [BEq α] : List α → Bool
  | [] => true
  | a :: as => !as.contains a && allDistinct as

/-- The scope inside a tag, if all its prefixes are bound and no attribute comes twice. -/
def enter (scope : Scope) (t : Tag) : Option Scope := do
  if !allDistinct (t.attributes.map (·.1)) then none
  else
    let inner ← bind scope t.attributes
    let _ ← namespaceOf? inner t.name
    let names := (t.attributes.map (·.1)).filter fun n => (declares? n).isNone
    let full ← names.mapM fun n => (namespaceOf? inner n).map fun uri => (uri, n.part)
    if allDistinct full then return inner else none

/-! ## Comments and instructions -/

/-- What follows the first occurrence of `stop`. -/
def behind? (stop cs : List Char) : Option (List Char) := (Text.indexOf? stop cs).map fun n => cs.drop (n + stop.length)

/-- What follows a comment, from behind its opening on.  It holds no two hyphens in a row. -/
def comment? (cs : List Char) : Option (List Char) := do
  let rest ← behind? "--".toList cs
  Text.after? ['>'] rest

/-- What follows an instruction, from behind its opening on. -/
def instruction? (cs : List Char) : Option (List Char) := do
  let (target, rest) ← plainName? cs
  if target.map Char.toLower == "xml".toList then none
  else
    match rest with
    | '?' :: '>' :: rest => return rest
    | c :: _ => if isSpace c then behind? "?>".toList rest else none
    | [] => none

/-- Passes over space, comments and instructions. -/
def misc : Nat → List Char → Option (List Char)
  | 0, _ => none
  | n + 1, cs =>
    match cs.dropWhile isSpace with
    | '<' :: '!' :: '-' :: '-' :: rest => (comment? rest).bind (misc n)
    | '<' :: '?' :: rest => (instruction? rest).bind (misc n)
    | rest => some rest

/-! ## Content -/

/-- An element that is open: its name, and the scope around it. -/
structure Frame where
  name : Name
  outer : Scope

/-- Content up to an end tag for none of the elements that it opens, or to the end of the text.  `holds` says whether the
text of an entity is content. -/
def content (es : Entities) (holds : Scope → List Char → Bool) : Nat → Scope → List Frame → List Char →
    Option (List Char)
  | 0, _, _, _ => none
  | n + 1, scope, frames, cs =>
    match cs with
    | [] => if frames.isEmpty then some [] else none
    | '<' :: '/' :: _ =>
      match frames with
      | [] => some cs
      | f :: frames => (endTag? f.name cs).bind (content es holds n f.outer frames)
    | '<' :: '!' :: '-' :: '-' :: rest => (comment? rest).bind (content es holds n scope frames)
    | '<' :: '?' :: rest => (instruction? rest).bind (content es holds n scope frames)
    | '<' :: rest =>
      match Text.after? "![CDATA[".toList rest with
      | some rest => (behind? "]]>".toList rest).bind (content es holds n scope frames)
      | none => do
        let (t, empty, rest) ← tag? es rest
        let inner ← enter scope t
        if empty then content es holds n scope frames rest
        else content es holds n inner (⟨t.name, scope⟩ :: frames) rest
    | ']' :: ']' :: '>' :: _ => none
    | '&' :: rest => do
      let (r, rest) ← reference? rest
      match r with
      | .character _ => content es holds n scope frames rest
      | .entity name =>
        if (predefined? name).isSome || holds scope name then content es holds n scope frames rest else none
    | _ :: rest => content es holds n scope frames rest

/-- The text of an entity is content.  The first argument bounds the depth. -/
def entityHolds : Nat → Entities → Scope → List Char → Bool
  | 0, _, _, _ => false
  | n + 1, es, scope, name =>
    match es.get? name with
    | some (.text cs) =>
      let inner := es.without name
      content inner (entityHolds n inner) (cs.length + 1) scope [] cs == some []
    | _ => false

/-- The root element: its tag, and what follows it. -/
def root? (es : Entities) (cs : List Char) : Option (Tag × List Char) := do
  let rest ← Text.after? ['<'] cs
  let (t, empty, rest) ← tag? es rest
  let scope ← enter [] t
  if empty then return (t, rest)
  else
    let rest ← content es (entityHolds (es.entries.length + 1) es) (rest.length + 1) scope [] rest
    let rest ← endTag? t.name rest
    return (t, rest)

/-! ## Document types -/

/-- What follows a reference to a text that is kept elsewhere: one quoted text or two after the keyword. -/
def external? (cs : List Char) : Option (List Char) :=
  let literal? (cs : List Char) : Option (List Char) :=
    match cs with
    | c :: _ => if isSpace c then (quoted? (cs.dropWhile isSpace)).map (·.2) else none
    | [] => none
  match Text.after? "SYSTEM".toList cs, Text.after? "PUBLIC".toList cs with
  | some rest, _ => literal? rest
  | none, some rest => (literal? rest).bind literal?
  | none, none => none

/-- The text of an entity as it is declared, with references to characters replaced. -/
def entityText : Nat → List Char → Option (List Char)
  | 0, _ => none
  | _ + 1, [] => some []
  | n + 1, c :: cs =>
    if c = '%' then none
    else if c = '&' then do
      let (r, rest) ← reference? cs
      let tail ← entityText n rest
      match r with
      | .character c => return c :: tail
      | .entity name => return '&' :: name ++ ';' :: tail
    else (entityText n cs).map (c :: ·)

/-- Space that has to be there. -/
def space? (cs : List Char) : Option (List Char) :=
  match cs with
  | c :: _ => if isSpace c then some (cs.dropWhile isSpace) else none
  | [] => none

/-- The declaration of an entity from behind its keyword on. -/
def entityDeclaration? (es : Entities) (cs : List Char) : Option (Entities × List Char) := do
  let cs ← space? cs
  let (isParameter, cs) ← match cs with
    | '%' :: rest => (space? rest).map fun rest => (true, rest)
    | _ => some (false, cs)
  let (name, cs) ← plainName? cs
  let cs ← space? cs
  let (entity, rest) ← match quoted? cs with
    | some (text, rest) => (entityText (text.length + 1) text).map fun text => (Entity.text text, rest)
    | none => (external? cs).map fun rest => (Entity.outside, rest)
  let rest ← match Text.after? "NDATA".toList (rest.dropWhile isSpace) with
    | some rest => (space? rest).bind fun rest => (plainName? rest).map (·.2)
    | none => some rest
  let rest ← Text.after? ['>'] (rest.dropWhile isSpace)
  return (if isParameter then es else es.declare name entity, rest)

/-- What follows a declaration of another kind; angle brackets between quotes do not end it. -/
def otherDeclaration? : Nat → List Char → Option (List Char)
  | 0, _ => none
  | _ + 1, [] => none
  | n + 1, c :: cs =>
    if c = '>' then some cs
    else if c = '<' then none
    else if c = '"' || c = '\'' then (quoted? (c :: cs)).bind fun r => otherDeclaration? n r.2
    else otherDeclaration? n cs

def otherKeywords : List (List Char) := ["ELEMENT".toList, "ATTLIST".toList, "NOTATION".toList]

/-- The declarations inside a document type. -/
def subset? : Nat → Entities → List Char → Option (Entities × List Char)
  | 0, _, _ => none
  | n + 1, es, cs =>
    match cs.dropWhile isSpace with
    | ']' :: rest => some (es, rest)
    | '%' :: rest => do
      let (_, rest) ← plainName? rest
      let rest ← Text.after? [';'] rest
      subset? n es.interrupt rest
    | '<' :: '!' :: '-' :: '-' :: rest => (comment? rest).bind (subset? n es)
    | '<' :: '?' :: rest => (instruction? rest).bind (subset? n es)
    | '<' :: '!' :: rest =>
      match Text.after? "ENTITY".toList rest with
      | some rest => (entityDeclaration? es rest).bind fun r => subset? n r.1 r.2
      | none => do
        let rest ← otherKeywords.findSome? fun word => Text.after? word rest
        let rest ← space? rest
        let rest ← otherDeclaration? (rest.length + 1) rest
        subset? n es rest
    | _ => none

/-- A document type from behind its keyword on. -/
def doctype? (es : Entities) (cs : List Char) : Option (Entities × List Char) := do
  let cs ← space? cs
  let (_, cs) ← name? cs
  let afterName := cs.dropWhile isSpace
  let (es, cs) ← match afterName with
    | 'S' :: _ => (external? afterName).map fun rest => (es.extend, rest)
    | 'P' :: _ => (external? afterName).map fun rest => (es.extend, rest)
    | _ => some (es, cs)
  let (es, cs) ← match cs.dropWhile isSpace with
    | '[' :: rest => subset? (rest.length + 1) es rest
    | rest => some (es, rest)
  let cs ← Text.after? ['>'] (cs.dropWhile isSpace)
  return (es, cs)

/-! ## Documents -/

/-- The tag of the root element of a document. -/
def document? (d : Declaration) (cs : List Char) : Option Tag := do
  if !cs.all isAllowed then none
  else
    let cs := Text.foldNewlines cs
    let cs ← misc (cs.length + 1) cs
    let es : Entities := { standsAlone := d.standalone }
    let (es, cs) ← match Text.after? "<!DOCTYPE".toList cs with
      | some rest => doctype? es rest
      | none => some (es, cs)
    let cs ← misc (cs.length + 1) cs
    let (tag, cs) ← root? es cs
    let cs ← misc (cs.length + 1) cs
    if cs.isEmpty then return tag else none

inductive Outcome where
  | root (t : Tag)
  | malformed
  | unknownEncoding

def read (bytes : ByteArray) : Outcome :=
  match decodeDocument bytes.toList with
  | .error .malformed => .malformed
  | .error .unknown => .unknownEncoding
  | .ok (d, cs) =>
    match document? d cs with
    | some t => .root t
    | none => .malformed

namespace Tag

/-- The value of an attribute without a namespace. -/
def attribute? (t : Tag) (name : String) : Option String :=
  (t.attributes.lookup ⟨none, name.toList⟩).map String.ofList

end Tag
end Markup
end ModuleLink
