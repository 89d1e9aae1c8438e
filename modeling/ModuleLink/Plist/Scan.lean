import ModuleLink.Plist.Value
import ModuleLink.Text.Classes
import ModuleLink.Text.Search

/-!
Reading a property list.  Every function takes the text that is left and gives back what it leaves, so a place in the
text is the text from there on.
-/

namespace ModuleLink
namespace Plist

/-- Why a scan stops. -/
inductive Reason where
  | unterminatedComment
  | unterminatedList
  | unterminatedDictionary
  | expectedValue
  | expectedSeparator
  | expected (c : Char)
  | trailingContent
  | noObjects
deriving DecidableEq

/-- A scan that stopped, and the text it had before it. -/
structure Stop where
  reason : Reason
  left : List Char

/-! ## Blanks and comments -/

/-- The inside of a comment that is already open, and what follows its end. -/
def closeComment? : List Char → Option (List Char × List Char)
  | '*' :: '/' :: rest => some ([], rest)
  | c :: rest => (closeComment? rest).map fun r => (c :: r.1, r.2)
  | [] => none

theorem closeComment?_length {cs inside rest : List Char} (h : closeComment? cs = some (inside, rest)) :
    rest.length < cs.length := by
  induction cs generalizing inside rest with
  | nil => simp [closeComment?] at h
  | cons c cs ih =>
    rw [closeComment?.eq_def] at h
    split at h
    · rename_i heq; simp only [List.cons.injEq] at heq
      simp only [Option.some.injEq, Prod.mk.injEq] at h
      obtain ⟨rfl, rfl⟩ := heq; obtain ⟨-, rfl⟩ := h
      simp only [List.length_cons]; omega
    · rename_i heq; simp only [List.cons.injEq] at heq
      obtain ⟨rfl, rfl⟩ := heq
      obtain ⟨r, hr, hr'⟩ := Option.map_eq_some_iff.1 h
      obtain ⟨a, b⟩ := r
      simp only [Prod.mk.injEq] at hr'
      obtain ⟨-, rfl⟩ := hr'
      have := ih hr
      simp only [List.length_cons]; omega
    · contradiction

/-- What follows the current line. -/
def nextLine (cs : List Char) : List Char := (cs.dropWhile (· != '\n')).drop 1

theorem nextLine_length (cs : List Char) : (nextLine cs).length ≤ cs.length := by
  have := (List.dropWhile_suffix (l := cs) (· != '\n')).length_le
  simp only [nextLine, List.length_drop]; omega

/-- Passes over white space and comments. -/
def skip (cs : List Char) : Except Stop (List Char) :=
  match _h : cs.dropWhile Text.isBlank with
  | '/' :: '*' :: rest =>
    match _hc : closeComment? rest with
    | some (_, after) => skip after
    | none => .error ⟨.unterminatedComment, '/' :: '*' :: rest⟩
  | '/' :: '/' :: rest => skip (nextLine rest)
  | rest => .ok rest
termination_by cs.length
decreasing_by
  · have := (List.dropWhile_suffix (l := cs) Text.isBlank).length_le
    have := closeComment?_length _hc
    rw [_h] at *; simp only [List.length_cons] at *; omega
  · have := (List.dropWhile_suffix (l := cs) Text.isBlank).length_le
    have := nextLine_length rest
    rw [_h] at *; simp only [List.length_cons] at *; omega

/-- Passes over one character that has to stand next. -/
def expect (c : Char) (cs : List Char) : Except Stop (List Char) := do
  let cs ← skip cs
  match cs with
  | d :: rest => if d = c then .ok rest else .error ⟨.expected c, cs⟩
  | [] => .error ⟨.expected c, cs⟩

/-! ## Scalars -/

/-- The rest of a quoted scalar up to and with its closing quote. -/
def quotedTail? : List Char → Option (List Char × List Char)
  | [] => none
  | '"' :: rest => some (['"'], rest)
  | '\\' :: c :: rest => (quotedTail? rest).map fun r => ('\\' :: c :: r.1, r.2)
  | ['\\'] => none
  | c :: rest => (quotedTail? rest).map fun r => (c :: r.1, r.2)

/-- A character that may stand in a bare word whatever follows it. -/
def isWordPart (c : Char) : Bool :=
  !(Text.isBlank c || c == '\x7b' || c == '\x7d' || c == '(' || c == ')' || c == '=' || c == ';' || c == ',' ||
    c == '"' || c == '/')

/-- The longest bare word.  It may hold a slash, as long as the slash does not open a comment. -/
def word : List Char → List Char × List Char
  | [] => ([], [])
  | '/' :: rest =>
    match rest with
    | '/' :: _ => ([], '/' :: rest)
    | '*' :: _ => ([], '/' :: rest)
    | _ => let r := word rest; ('/' :: r.1, r.2)
  | c :: rest => if isWordPart c then let r := word rest; (c :: r.1, r.2) else ([], c :: rest)

/-- A quoted scalar or a bare word, if one stands here. -/
def token? : List Char → Option (List Char × List Char)
  | '"' :: rest => (quotedTail? rest).map fun r => ('"' :: r.1, r.2)
  | cs => match word cs with
    | ([], _) => none
    | r => some r

/-- A comment on the same line, trimmed. -/
def trailingComment (cs : List Char) : Except Stop (Option String × List Char) :=
  match cs.dropWhile Text.isGap with
  | '/' :: '*' :: rest =>
    match closeComment? rest with
    | some (inside, after) => .ok (some (String.ofList (Text.trim inside)), after)
    | none => .error ⟨.unterminatedComment, cs⟩
  | _ => .ok (none, cs)

def scalar (cs : List Char) : Except Stop (Scalar × List Char) := do
  let cs ← skip cs
  match token? cs with
  | none => .error ⟨.expectedValue, cs⟩
  | some (text, rest) =>
    let (comment, rest) ← trailingComment rest
    .ok (⟨String.ofList text, comment⟩, rest)

/-! ## Values -/

/-- An entry of a dictionary with the text from its key on, from its value on, and behind it. -/
structure Member where
  key : Scalar
  value : Value
  opened : List Char
  body : List Char
  closed : List Char

namespace Member

/-- The part of the entry behind the equals sign holds no line feed. -/
def inline (m : Member) : Bool :=
  !(m.body.take (m.body.length - m.closed.length)).contains '\n'

end Member

/-- The dictionary that entries make up. -/
def Dict.ofMembers (members : List Member) : Dict Value :=
  members.foldl (fun d m => d.read m.key m.value) {}

mutual

/-- A value.  The first argument bounds the depth of the calls. -/
def value : Nat → List Char → Except Stop (Value × List Char)
  | 0, cs => .error ⟨.expectedValue, cs⟩
  | n + 1, cs => do
    let cs ← skip cs
    match cs with
    | '\x7b' :: rest =>
      let (ms, rest) ← members n rest
      .ok (.dict (Dict.ofMembers ms), rest)
    | '(' :: rest =>
      let (vs, rest) ← items n rest
      .ok (.list vs, rest)
    | _ =>
      let (s, rest) ← scalar cs
      .ok (.scalar s, rest)

/-- The items of a list that is already open. -/
def items : Nat → List Char → Except Stop (List Value × List Char)
  | 0, cs => .error ⟨.unterminatedList, cs⟩
  | n + 1, cs => do
    let cs ← skip cs
    match cs with
    | [] => .error ⟨.unterminatedList, cs⟩
    | ')' :: rest => .ok ([], rest)
    | _ =>
      let (v, rest) ← value n cs
      let rest ← skip rest
      match rest with
      | ',' :: rest =>
        let (vs, rest) ← items n rest
        .ok (v :: vs, rest)
      | ')' :: rest => .ok ([v], rest)
      | _ => .error ⟨.expectedSeparator, rest⟩

/-- The entries of a dictionary that is already open. -/
def members : Nat → List Char → Except Stop (List Member × List Char)
  | 0, cs => .error ⟨.unterminatedDictionary, cs⟩
  | n + 1, cs => do
    let cs ← skip cs
    match cs with
    | [] => .error ⟨.unterminatedDictionary, cs⟩
    | '\x7d' :: rest => .ok ([], rest)
    | _ =>
      let (key, rest) ← scalar cs
      let body ← expect '=' rest
      let (v, rest) ← value n body
      let closed ← expect ';' rest
      let (ms, rest) ← members n closed
      .ok (⟨key, v, cs, body, closed⟩ :: ms, rest)

end

/-- A dictionary under the key of the object table, with the text from its closing brace on. -/
structure ObjectTable where
  members : List Member
  close : List Char

/-- The entries of the outermost dictionary.  The value of `tableKey` has to be a dictionary, whose entries are kept. -/
def rootMembers (tableKey : String) : Nat → List Char → Except Stop ((List Member × List ObjectTable) × List Char)
  | 0, cs => .error ⟨.unterminatedDictionary, cs⟩
  | n + 1, cs => do
    let cs ← skip cs
    match cs with
    | [] => .error ⟨.unterminatedDictionary, cs⟩
    | '\x7d' :: rest => .ok (([], []), rest)
    | _ =>
      let (key, rest) ← scalar cs
      let body ← expect '=' rest
      if key.value = tableKey then
        let open_ ← expect '\x7b' body
        let (inner, rest) ← members n open_
        let closed ← expect ';' rest
        let ((ms, tables), after) ← rootMembers tableKey n closed
        .ok ((⟨key, .dict (Dict.ofMembers inner), cs, body, closed⟩ :: ms, ⟨inner, '\x7d' :: rest⟩ :: tables), after)
      else
        let (v, rest) ← value n body
        let closed ← expect ';' rest
        let ((ms, tables), after) ← rootMembers tableKey n closed
        .ok ((⟨key, v, cs, body, closed⟩ :: ms, tables), after)

/-- A depth that no text can exceed: opening a bracket takes two calls, so twice the length is enough. -/
def depthBound (text : List Char) : Nat := 2 * text.length + 2

/-- A text that holds one dictionary and, in it, an object table. -/
def document (tableKey : String) (text : List Char) : Except Stop (Dict Value × List ObjectTable) := do
  let rest ← expect '\x7b' text
  let ((ms, tables), rest) ← rootMembers tableKey (depthBound text) rest
  let rest ← skip rest
  if !rest.isEmpty then .error ⟨.trailingContent, rest⟩
  else if tables.isEmpty then .error ⟨.noObjects, rest⟩
  else .ok (Dict.ofMembers ms, tables)

end Plist
end ModuleLink
