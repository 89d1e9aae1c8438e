import ModuleLink.Setting.Basic

/-!
Reading JSON.  Beyond the standard, the three constants for numbers that are none are read, and of two entries with one
key the later gives the value and the earlier the place.
-/

namespace ModuleLink
namespace Json

def isSpace (c : Char) : Bool := c == ' ' || c == '\t' || c == '\n' || c == '\r'

def skipSpace (cs : List Char) : List Char := cs.dropWhile isSpace

def hexValue? (c : Char) : Option Nat :=
  if c.isDigit then some (c.toNat - 48)
  else if 'a' ≤ c && c ≤ 'f' then some (c.toNat - 87)
  else if 'A' ≤ c && c ≤ 'F' then some (c.toNat - 55)
  else none

/-- The number that hexadecimal digits stand for. -/
def hexNumber? (cs : List Char) : Option Nat :=
  cs.foldl (fun n c => do return 16 * (← n) + (← hexValue? c)) (some 0)

/-- Four hexadecimal digits. -/
def unit? : List Char → Option (Nat × List Char)
  | a :: b :: c :: d :: rest => (hexNumber? [a, b, c, d]).map fun n => (n, rest)
  | _ => none

def isHighHalf (n : Nat) : Bool := 0xD800 ≤ n && n < 0xDC00
def isLowHalf (n : Nat) : Bool := 0xDC00 ≤ n && n < 0xE000

/-- A character for a code unit.  A half that stands alone becomes a replacement mark. -/
def charOf (n : Nat) : Char := if isHighHalf n || isLowHalf n then '\uFFFD' else Char.ofNat n

def simpleEscape? : Char → Option Char
  | '"' => some '"'
  | '\\' => some '\\'
  | '/' => some '/'
  | 'b' => some '\x08'
  | 'f' => some '\x0c'
  | 'n' => some '\n'
  | 'r' => some '\r'
  | 't' => some '\t'
  | _ => none

/-- The rest of a string that is already open.  The first argument bounds the number of characters. -/
def stringTail : Nat → List Char → Option (List Char × List Char)
  | 0, _ => none
  | n + 1, cs =>
    match cs with
    | [] => none
    | '"' :: rest => some ([], rest)
    | '\\' :: 'u' :: rest => do
      let (u, rest) ← unit? rest
      let paired : Option (Nat × List Char) :=
        match rest with
        | '\\' :: 'u' :: more => (unit? more).filter fun l => isHighHalf u && isLowHalf l.1
        | _ => none
      match paired with
      | some (l, rest) =>
        let (s, rest) ← stringTail n rest
        return (Char.ofNat (0x10000 + (u - 0xD800) * 0x400 + (l - 0xDC00)) :: s, rest)
      | none =>
        let (s, rest) ← stringTail n rest
        return (charOf u :: s, rest)
    | '\\' :: c :: rest => do
      let e ← simpleEscape? c
      let (s, rest) ← stringTail n rest
      return (e :: s, rest)
    | c :: rest =>
      if c.toNat < 32 then none
      else do
        let (s, rest) ← stringTail n rest
        return (c :: s, rest)

def string? (cs : List Char) : Option (String × List Char) :=
  match cs with
  | '"' :: rest => (stringTail (rest.length + 1) rest).map fun r => (String.ofList r.1, r.2)
  | _ => none

/-- The number that decimal digits stand for. -/
def decimalNumber (cs : List Char) : Nat := cs.foldl (fun n c => 10 * n + (c.toNat - 48)) 0

/-- Longer runs of digits are refused as whole numbers. -/
def digitLimit : Nat := 4300

/-- The part of a number behind its point, with the rest. -/
def fraction? : List Char → Option (List Char × List Char)
  | '.' :: rest =>
    let digits := rest.takeWhile Char.isDigit
    if digits.isEmpty then none else some (digits, rest.dropWhile Char.isDigit)
  | _ => none

/-- The exponent of a number, with the rest. -/
def exponent? : List Char → Option (Int × List Char)
  | c :: rest =>
    if c == 'e' || c == 'E' then
      let (sign, body) : Int × List Char := match rest with
        | '-' :: r => (-1, r)
        | '+' :: r => (1, r)
        | r => (1, r)
      let digits := body.takeWhile Char.isDigit
      if digits.isEmpty then none else some (sign * decimalNumber digits, body.dropWhile Char.isDigit)
    else none
  | [] => none

/-- A number that starts with a digit. -/
def number? (negative : Bool) (cs : List Char) : Option (Setting × List Char) :=
  let run := cs.takeWhile Char.isDigit
  match run with
  | [] => none
  | d :: _ =>
    let whole := if d == '0' then ['0'] else run
    let rest := cs.drop whole.length
    let (part, rest₁, isPart) := match fraction? rest with
      | some (digits, r) => (digits, r, true)
      | none => ([], rest, false)
    let (power, rest₂, isPower) := match exponent? rest₁ with
      | some (k, r) => (k, r, true)
      | none => (0, rest₁, false)
    if isPart || isPower then
      some (.real (.ofDecimal negative (decimalNumber (whole ++ part)) (power - part.length)), rest₂)
    else if digitLimit < whole.length then none
    else
      let n : Int := decimalNumber whole
      some (.int (if negative then -n else n), rest₂)

def after? (word : String) (v : Setting) (cs : List Char) : Option (Setting × List Char) :=
  if word.toList.isPrefixOf cs then some (v, cs.drop word.length) else none

mutual

/-- A value.  The first argument bounds the depth of the calls. -/
def value? : Nat → List Char → Option (Setting × List Char)
  | 0, _ => none
  | n + 1, cs =>
    match cs with
    | '"' :: _ => (string? cs).map fun r => (.text r.1, r.2)
    | '\x7b' :: rest =>
      match skipSpace rest with
      | '\x7d' :: rest => some (.table [], rest)
      | rest => (entries? n [] rest).map fun r => (.table r.1, r.2)
    | '[' :: rest =>
      match skipSpace rest with
      | ']' :: rest => some (.list [], rest)
      | rest => (items? n rest).map fun r => (.list r.1, r.2)
    | 'n' :: _ => after? "null" .null cs
    | 't' :: _ => after? "true" (.bool true) cs
    | 'f' :: _ => after? "false" (.bool false) cs
    | 'N' :: _ => after? "NaN" (.real .notNumber) cs
    | 'I' :: _ => after? "Infinity" (.real (.infinite false)) cs
    | '-' :: 'I' :: _ => after? "-Infinity" (.real (.infinite true)) cs
    | '-' :: rest => number? true rest
    | _ => number? false cs

def items? : Nat → List Char → Option (List Setting × List Char)
  | 0, _ => none
  | n + 1, cs => do
    let (v, rest) ← value? n cs
    match skipSpace rest with
    | ']' :: rest => return ([v], rest)
    | ',' :: rest =>
      let (vs, rest) ← items? n (skipSpace rest)
      return (v :: vs, rest)
    | _ => none

def entries? : Nat → Table → List Char → Option (Table × List Char)
  | 0, _, _ => none
  | n + 1, done, cs => do
    let (key, rest) ← string? cs
    match skipSpace rest with
    | ':' :: rest =>
      let (v, rest) ← value? n (skipSpace rest)
      let done := Table.set key v done
      match skipSpace rest with
      | '\x7d' :: rest => return (done, rest)
      | ',' :: rest => entries? n done (skipSpace rest)
      | _ => none
    | _ => none

end

/-- The value that a whole text stands for. -/
def read (text : String) : Option Setting := do
  let cs := text.toList
  let (v, rest) ← value? (cs.length + 1) (skipSpace cs)
  if (skipSpace rest).isEmpty then some v else none

end Json
end ModuleLink
