import ModuleLink.Setting.Json

/-!
Reading TOML 1.0.  A document is read statement by statement into a table, with notes on which tables may still grow.
-/

namespace ModuleLink
namespace Toml

/-- Why a text is no document. -/
inductive Trouble where
  | malformed
  /-- A whole number of more digits than are read. -/
  | hugeNumber (digits : Nat)

def fail {α : Type} : Except Trouble α := .error .malformed

/-! ## Blanks and comments -/

def isGap (c : Char) : Bool := c == ' ' || c == '\t'

def skipGap (cs : List Char) : List Char := cs.dropWhile isGap

/-- A control character, the tab aside. -/
def isControl (c : Char) : Bool := (c.toNat < 32 && c != '\t') || c.toNat == 127

/-- A comment up to the end of its line, if one stands here. -/
def skipComment (cs : List Char) : Except Trouble (List Char) :=
  match cs with
  | '#' :: rest =>
    if (rest.takeWhile (· != '\n')).any isControl then fail else .ok (rest.dropWhile (· != '\n'))
  | _ => .ok cs

/-- Blanks, line ends and comments between the items of an array. -/
def skipBetween : Nat → List Char → Except Trouble (List Char)
  | 0, cs => .ok cs
  | n + 1, cs => do
    let rest ← skipComment (cs.dropWhile fun c => isGap c || c == '\n')
    if rest.length = cs.length then .ok rest else skipBetween n rest

/-! ## Strings -/

/-- The text up to the first `mark`, and what follows the mark. -/
def until? (mark : List Char) : List Char → Option (List Char × List Char)
  | [] => none
  | c :: cs =>
    if mark.isPrefixOf (c :: cs) then some ([], (c :: cs).drop mark.length)
    else (until? mark cs).map fun r => (c :: r.1, r.2)

def literal (cs : List Char) : Except Trouble (String × List Char) :=
  match until? ['\''] cs with
  | some (s, rest) => if s.any isControl then fail else .ok (String.ofList s, rest)
  | none => fail

/-- A character given by hexadecimal digits. -/
def hexCharacter (width : Nat) (cs : List Char) : Except Trouble (Char × List Char) :=
  let digits := cs.take width
  if digits.length < width then fail
  else
    match Json.hexNumber? digits with
    | some n =>
      if n < 0xD800 || (0xE000 ≤ n && n < 0x110000) then .ok (Char.ofNat n, cs.drop width) else fail
    | none => fail

def simpleEscape? : Char → Option Char
  | 'b' => some '\x08'
  | 't' => some '\t'
  | 'n' => some '\n'
  | 'f' => some '\x0c'
  | 'r' => some '\r'
  | '"' => some '"'
  | '\\' => some '\\'
  | _ => none

/-- What a backslash stands for, and what follows. -/
def escape (multiline : Bool) (cs : List Char) : Except Trouble (List Char × List Char) :=
  match cs with
  | [] => fail
  | c :: rest =>
    if multiline && (isGap c || c == '\n') then
      let rest := if c == '\n' then cs else skipGap cs
      match rest with
      | [] => .ok ([], [])
      | '\n' :: rest => .ok ([], rest.dropWhile fun c => isGap c || c == '\n')
      | _ => fail
    else if c == 'u' then (hexCharacter 4 rest).map fun r => ([r.1], r.2)
    else if c == 'U' then (hexCharacter 8 rest).map fun r => ([r.1], r.2)
    else
      match simpleEscape? c with
      | some e => .ok ([e], rest)
      | none => fail

/-- The rest of a basic string that is already open.  The first argument bounds the number of characters. -/
def basicTail (multiline : Bool) : Nat → List Char → Except Trouble (List Char × List Char)
  | 0, _ => fail
  | n + 1, cs =>
    match cs with
    | [] => fail
    | '"' :: rest =>
      if !multiline then .ok ([], rest)
      else
        match rest with
        | '"' :: '"' :: rest => .ok ([], rest)
        | _ => do
          let (s, rest) ← basicTail multiline n rest
          .ok ('"' :: s, rest)
    | '\\' :: rest => do
      let (e, rest) ← escape multiline rest
      let (s, rest) ← basicTail multiline n rest
      .ok (e ++ s, rest)
    | c :: rest =>
      if isControl c && !(multiline && c == '\n') then fail
      else do
        let (s, rest) ← basicTail multiline n rest
        .ok (c :: s, rest)

def basic (multiline : Bool) (cs : List Char) : Except Trouble (String × List Char) := do
  let (s, rest) ← basicTail multiline (cs.length + 1) cs
  .ok (String.ofList s, rest)

/-- At most two more marks belong to a string over several lines. -/
def extraMarks (mark : Char) (s : String) (cs : List Char) : String × List Char :=
  match cs with
  | a :: b :: rest =>
    if a == mark && b == mark then (s.push mark |>.push mark, rest)
    else if a == mark then (s.push mark, b :: rest)
    else (s, cs)
  | [a] => if a == mark then (s.push mark, []) else (s, cs)
  | [] => (s, cs)

def dropLineEnd : List Char → List Char
  | '\n' :: rest => rest
  | cs => cs

def longLiteral (cs : List Char) : Except Trouble (String × List Char) :=
  match until? ['\'', '\'', '\''] (dropLineEnd cs) with
  | some (s, rest) =>
    if s.any fun c => isControl c && c != '\n' then fail else .ok (extraMarks '\'' (String.ofList s) rest)
  | none => fail

def longBasic (cs : List Char) : Except Trouble (String × List Char) := do
  let (s, rest) ← basic true (dropLineEnd cs)
  .ok (extraMarks '"' s rest)

/-! ## Keys -/

def isBareKey (c : Char) : Bool := c.isAlphanum || c == '-' || c == '_'

def keyPart (cs : List Char) : Except Trouble (String × List Char) :=
  match cs with
  | '\'' :: rest => literal rest
  | '"' :: rest => basic false rest
  | _ =>
    let s := cs.takeWhile isBareKey
    if s.isEmpty then fail else .ok (String.ofList s, cs.dropWhile isBareKey)

/-- A key of one part or more.  The first argument bounds their number. -/
def key : Nat → List Char → Except Trouble (List String × List Char)
  | 0, _ => fail
  | n + 1, cs => do
    let (part, rest) ← keyPart cs
    match skipGap rest with
    | '.' :: rest =>
      let (parts, rest) ← key n (skipGap rest)
      .ok (part :: parts, rest)
    | rest => .ok ([part], rest)

/-! ## Numbers, dates and times -/

/-- Digits of a kind with single underscores between them. -/
def digitRun (isDigit : Char → Bool) : List Char → List Char × List Char
  | [] => ([], [])
  | '_' :: c :: cs => if isDigit c then let r := digitRun isDigit cs; (c :: r.1, r.2) else ([], '_' :: c :: cs)
  | c :: cs => if isDigit c then let r := digitRun isDigit cs; (c :: r.1, r.2) else ([], c :: cs)

/-- Digits that do not start with an underscore. -/
def digits? (isDigit : Char → Bool) (cs : List Char) : Option (List Char × List Char) :=
  match cs with
  | c :: _ => if isDigit c then some (digitRun isDigit cs) else none
  | [] => none

def digitValue (c : Char) : Nat := (Json.hexValue? c).getD 0

def numberIn (base : Nat) (cs : List Char) : Nat := cs.foldl (fun n c => base * n + digitValue c) 0

/-- A whole number with a mark for its base. -/
def basedNumber? (cs : List Char) : Option (Setting × List Char) :=
  let run (base : Nat) (isDigit : Char → Bool) (rest : List Char) : Option (Setting × List Char) :=
    (digits? isDigit rest).map fun r => (.int (numberIn base r.1), r.2)
  match cs with
  | '0' :: 'x' :: rest => run 16 (fun c => (Json.hexValue? c).isSome) rest
  | '0' :: 'b' :: rest => run 2 (fun c => c == '0' || c == '1') rest
  | '0' :: 'o' :: rest => run 8 (fun c => '0' ≤ c && c ≤ '7') rest
  | _ => none

def signOf : List Char → Bool × List Char
  | '-' :: rest => (true, rest)
  | '+' :: rest => (false, rest)
  | cs => (false, cs)

def fraction? : List Char → Option (List Char × List Char)
  | '.' :: rest => digits? Char.isDigit rest
  | _ => none

def exponent? : List Char → Option (Int × List Char)
  | c :: rest =>
    if c == 'e' || c == 'E' then
      let (negative, body) := signOf rest
      (digits? Char.isDigit body).map fun r =>
        let n : Int := numberIn 10 r.1
        (if negative then -n else n, r.2)
    else none
  | [] => none

def number? (cs : List Char) : Option (Except Trouble (Setting × List Char)) :=
  match basedNumber? cs with
  | some r => some (.ok r)
  | none =>
    let (negative, body) := signOf cs
    let whole? := match body with
      | '0' :: rest => some (['0'], rest)
      | _ => digits? Char.isDigit body
    whole?.map fun (whole, rest) =>
      let (part, rest₁, isPart) := match fraction? rest with
        | some (d, r) => (d, r, true)
        | none => ([], rest, false)
      let (power, rest₂, isPower) := match exponent? rest₁ with
        | some (k, r) => (k, r, true)
        | none => (0, rest₁, false)
      if isPart || isPower then
        .ok (.real (.ofDecimal negative (numberIn 10 (whole ++ part)) (power - part.length)), rest₂)
      else if Json.digitLimit < whole.length then .error (.hugeNumber whole.length)
      else
        let n : Int := numberIn 10 whole
        .ok (.int (if negative then -n else n), rest₂)

/-- So many decimal digits. -/
def fixed? (width : Nat) (cs : List Char) : Option (Nat × List Char) :=
  let d := cs.take width
  if d.length = width && d.all Char.isDigit then some (Json.decimalNumber d, cs.drop width) else none

/-- So many decimal digits, for a number between two bounds. -/
def between? (width low high : Nat) (cs : List Char) : Option (Nat × List Char) :=
  (fixed? width cs).filter fun r => low ≤ r.1 && r.1 ≤ high

def mark? (c : Char) : List Char → Option (List Char)
  | d :: rest => if d == c then some rest else none
  | [] => none

/-- A part of a second in millionths; digits beyond are passed over. -/
def micros (cs : List Char) : Nat × List Char :=
  match Json.fraction? cs with
  | some (d, rest) => (Json.decimalNumber ((d ++ List.replicate 6 '0').take 6), rest)
  | none => (0, cs)

def clock? (cs : List Char) : Option (Clock × List Char) := do
  let (hour, cs) ← between? 2 0 23 cs
  let cs ← mark? ':' cs
  let (minute, cs) ← between? 2 0 59 cs
  let cs ← mark? ':' cs
  let (second, cs) ← between? 2 0 59 cs
  let (micro, cs) := micros cs
  return (⟨hour, minute, second, micro⟩, cs)

def offset? (cs : List Char) : Option (Int × List Char) :=
  match cs with
  | c :: rest =>
    if c == 'Z' || c == 'z' then some (0, rest)
    else if c == '+' || c == '-' then do
      let (hour, rest) ← between? 2 0 23 rest
      let rest ← mark? ':' rest
      let (minute, rest) ← between? 2 0 59 rest
      let n : Int := 60 * hour + minute
      return (if c == '-' then -n else n, rest)
    else none
  | [] => none

def date? (cs : List Char) : Option (Date × List Char) := do
  let (year, cs) ← fixed? 4 cs
  let cs ← mark? '-' cs
  let (month, cs) ← between? 2 1 12 cs
  let cs ← mark? '-' cs
  let (day, cs) ← between? 2 1 31 cs
  return (⟨year, month, day⟩, cs)

/-- A date, with a time if one follows. -/
def dateMoment? (cs : List Char) : Option (Date × Moment × List Char) := do
  let (d, rest) ← date? cs
  let timed := match rest with
    | c :: more => if c == 'T' || c == 't' || c == ' ' then clock? more else none
    | [] => none
  match timed with
  | some (c, rest) =>
    match offset? rest with
    | some (o, rest) => return (d, .both d c (some o), rest)
    | none => return (d, .both d c none, rest)
  | none => return (d, .date d, rest)

def specialReal? (cs : List Char) : Option (Setting × List Char) :=
  let (negative, body) := signOf cs
  if "inf".toList.isPrefixOf body then some (.real (.infinite negative), body.drop 3)
  else if "nan".toList.isPrefixOf body then some (.real .notNumber, body.drop 3)
  else none

/-! ## Tables -/

/-- Changes the table at the end of a chain of keys.  Tables on the way are made; an array stands for its last item if
`throughArrays`. -/
def inTable (throughArrays : Bool) (change : Table → Option Table) : List String → Table → Option Table
  | [], t => change t
  | k :: ks, t =>
    match t.lookup k with
    | none => (inTable throughArrays change ks []).map fun c => Table.set k (.table c) t
    | some (.table inner) => (inTable throughArrays change ks inner).map fun c => Table.set k (.table c) t
    | some (.list items) =>
      if throughArrays then
        match items.getLast? with
        | some (.table inner) =>
          (inTable throughArrays change ks inner).map fun c => Table.set k (.list (items.dropLast ++ [.table c])) t
        | _ => none
      else none
    | some _ => none

/-- Puts in a value under a key that is new. -/
def insertNew (k : String) (v : Setting) (t : Table) : Option Table :=
  if (t.lookup k).isSome then none else some (Table.set k v t)

def isContainer : Setting → Bool
  | .list _ => true
  | .table _ => true
  | _ => false

/-- Some front part of the key is among the keys. -/
def covers (keys : List (List String)) (k : List String) : Bool := keys.any fun p => !p.isEmpty && p.isPrefixOf k

mutual

/-- A value.  The first argument bounds the depth of the calls. -/
def value : Nat → List Char → Except Trouble (Setting × List Char)
  | 0, _ => fail
  | n + 1, cs =>
    match cs with
    | '"' :: '"' :: '"' :: rest => (longBasic rest).map fun r => (.text r.1, r.2)
    | '"' :: rest => (basic false rest).map fun r => (.text r.1, r.2)
    | '\'' :: '\'' :: '\'' :: rest => (longLiteral rest).map fun r => (.text r.1, r.2)
    | '\'' :: rest => (literal rest).map fun r => (.text r.1, r.2)
    | '[' :: rest => do
      match ← skipBetween (rest.length + 1) rest with
      | ']' :: rest => .ok (.list [], rest)
      | rest =>
        let (vs, rest) ← items n rest
        .ok (.list vs, rest)
    | '\x7b' :: rest =>
      match skipGap rest with
      | '\x7d' :: rest => .ok (.table [], rest)
      | rest => do
        let (t, rest) ← inlineEntries n [] [] rest
        .ok (.table t, rest)
    | _ =>
      if "true".toList.isPrefixOf cs then .ok (.bool true, cs.drop 4)
      else if "false".toList.isPrefixOf cs then .ok (.bool false, cs.drop 5)
      else
        match dateMoment? cs with
        | some (d, m, rest) => if d.isValid then .ok (.moment m, rest) else fail
        | none =>
          match clock? cs with
          | some (c, rest) => .ok (.moment (.clock c), rest)
          | none =>
            match number? cs with
            | some r => r
            | none =>
              match specialReal? cs with
              | some r => .ok r
              | none => fail

/-- The items of an array from one on. -/
def items : Nat → List Char → Except Trouble (List Setting × List Char)
  | 0, _ => fail
  | n + 1, cs => do
    let (v, rest) ← value n cs
    match ← skipBetween (rest.length + 1) rest with
    | ']' :: rest => .ok ([v], rest)
    | ',' :: rest =>
      match ← skipBetween (rest.length + 1) rest with
      | ']' :: rest => .ok ([v], rest)
      | rest =>
        let (vs, rest) ← items n rest
        .ok (v :: vs, rest)
    | _ => fail

def pair : Nat → List Char → Except Trouble ((List String × Setting) × List Char)
  | 0, _ => fail
  | n + 1, cs => do
    let (k, rest) ← key (cs.length + 1) cs
    match rest with
    | '=' :: rest =>
      let (v, rest) ← value n (skipGap rest)
      .ok ((k, v), rest)
    | _ => fail

/-- The entries of an inline table from one on; `frozen` keys hold values that must not grow. -/
def inlineEntries : Nat → Table → (frozen : List (List String)) → List Char → Except Trouble (Table × List Char)
  | 0, _, _, _ => fail
  | n + 1, done, frozen, cs => do
    let ((k, v), rest) ← pair n cs
    if covers frozen k then fail
    else
      match inTable false (insertNew (k.getLastD "") v) k.dropLast done with
      | none => fail
      | some done =>
        match skipGap rest with
        | '\x7d' :: rest => .ok (done, rest)
        | ',' :: rest => inlineEntries n done (if isContainer v then k :: frozen else frozen) (skipGap rest)
        | _ => fail

end

/-! ## Documents -/

/-- What has been read, and which keys it closed. -/
structure State where
  data : Table := []
  /-- Where the entries of the current section go. -/
  header : List String := []
  /-- Tables that must not be opened by a header. -/
  declared : List (List String) := []
  /-- Tables that join `declared` at the next header. -/
  pending : List (List String) := []
  /-- Values that must not grow. -/
  frozen : List (List String) := []

namespace State

def assign (s : State) (k : List String) (v : Setting) : Except Trouble State :=
  let parent := s.header ++ k.dropLast
  let between := (List.range (k.length - 1)).map fun i => s.header ++ k.take (i + 1)
  if between.any s.declared.contains || covers s.frozen parent then fail
  else
    match inTable true (insertNew (k.getLastD "") v) parent s.data with
    | none => fail
    | some data =>
      .ok { s with
        data := data
        pending := between ++ s.pending
        frozen := if isContainer v then (s.header ++ k) :: s.frozen else s.frozen }

/-- A new section: the tables made on the way by the last one are closed. -/
def close (s : State) : State := { s with declared := s.pending ++ s.declared, pending := [] }

def openTable (s : State) (k : List String) : Except Trouble State :=
  if s.declared.contains k || covers s.frozen k then fail
  else
    match inTable true some k s.data with
    | none => fail
    | some data => .ok { s with data := data, header := k, declared := k :: s.declared }

/-- Puts an empty table at the end of an array. -/
def appendTable (k : String) (t : Table) : Option Table :=
  match t.lookup k with
  | none => some (Table.set k (.list [.table []]) t)
  | some (.list items) => some (Table.set k (.list (items ++ [.table []])) t)
  | some _ => none

def openItem (s : State) (k : List String) : Except Trouble State :=
  if covers s.frozen k then fail
  else
    match inTable true (appendTable (k.getLastD "")) k.dropLast s.data with
    | none => fail
    | some data =>
      .ok { s with
        data := data
        header := k
        declared := k :: s.declared.filter fun p => !k.isPrefixOf p
        frozen := s.frozen.filter fun p => !k.isPrefixOf p }

end State

/-- One statement without what follows it on its line. -/
def statement (s : State) (cs : List Char) : Except Trouble (State × List Char) :=
  match cs with
  | '#' :: _ => .ok (s, cs)
  | '[' :: '[' :: rest => do
    let (k, rest) ← key (rest.length + 1) (skipGap rest)
    let s ← s.close.openItem k
    match rest with
    | ']' :: ']' :: rest => .ok (s, rest)
    | _ => fail
  | '[' :: rest => do
    let (k, rest) ← key (rest.length + 1) (skipGap rest)
    let s ← s.close.openTable k
    match rest with
    | ']' :: rest => .ok (s, rest)
    | _ => fail
  | _ => do
    let ((k, v), rest) ← pair (cs.length + 1) cs
    let s ← s.assign k v
    .ok (s, rest)

/-- The statements of a text.  The first argument bounds their number. -/
def statements : Nat → State → List Char → Except Trouble State
  | 0, s, _ => .ok s
  | n + 1, s, cs =>
    match skipGap cs with
    | [] => .ok s
    | '\n' :: rest => statements n s rest
    | rest => do
      let (s, rest) ← statement s rest
      match ← skipComment (skipGap rest) with
      | [] => .ok s
      | '\n' :: rest => statements n s rest
      | _ => fail

def foldLineEnds : List Char → List Char
  | [] => []
  | '\r' :: '\n' :: cs => '\n' :: foldLineEnds cs
  | c :: cs => c :: foldLineEnds cs

/-- The table that a whole text stands for. -/
def read (text : String) : Except Trouble Table := do
  let cs := foldLineEnds text.toList
  let s ← statements (cs.length + 1) {} cs
  .ok s.data

end Toml
end ModuleLink
