import ModuleLink.Markup.Characters
import ModuleLink.Text.Encoding

/-!
The characters of a document.  The encoding follows from the first bytes, or else from the declaration at the front.
-/

namespace ModuleLink
namespace Markup

/-- The byte order of an encoding with two bytes to a unit. -/
inductive ByteOrder where
  | big
  | little
deriving DecidableEq

inductive Encoding where
  | utf8
  | latin1
  | windows1252
  | ascii
  | utf16 (order : ByteOrder)
deriving DecidableEq

/-- Why there are no characters. -/
inductive EncodingFault where
  /-- The bytes are no text in the encoding, or the encoding is another one than it is declared to be. -/
  | malformed
  | unknown
deriving DecidableEq

/-! ## The declaration -/

/-- A character of a value in the declaration. -/
def isDeclarationChar (c : Char) : Bool := c.isAlphanum || c == '.' || c == '-' || c == '_'

/-- The settings of a declaration up to its end.  The first argument bounds their number. -/
def declarationTail : Nat → List Char → Option (List (String × String) × List Char)
  | 0, _ => none
  | n + 1, cs =>
    match cs.dropWhile isSpace with
    | '?' :: '>' :: rest => some ([], rest)
    | next => do
      if next.length = cs.length then none
      else
        let name := next.takeWhile fun c => c.isAlpha
        match (next.drop name.length).dropWhile isSpace with
        | '=' :: rest =>
          match rest.dropWhile isSpace with
          | quote :: rest =>
            if quote != '"' && quote != '\'' then none
            else
              let value := rest.takeWhile isDeclarationChar
              match rest.drop value.length with
              | close :: rest =>
                if close != quote then none
                else
                  let (more, rest) ← declarationTail n rest
                  return ((String.ofList name, String.ofList value) :: more, rest)
              | [] => none
          | [] => none
        | _ => none

structure Declaration where
  encoding : Option String := none
  standalone : Bool := false
deriving DecidableEq

/-- The version comes first, then the encoding, then the answer whether the document stands alone. -/
def declarationOf : List (String × String) → Option Declaration
  | [("version", _)] => some {}
  | [("version", _), ("encoding", e)] => withEncoding e false
  | [("version", _), ("standalone", s)] => (answer? s).map fun b => ⟨none, b⟩
  | [("version", _), ("encoding", e), ("standalone", s)] => (answer? s).bind (withEncoding e)
  | _ => none
where
  answer? (s : String) : Option Bool := if s == "yes" then some true else if s == "no" then some false else none
  withEncoding (e : String) (standalone : Bool) : Option Declaration :=
    if (e.toList.head?.map Char.isAlpha).getD false then some ⟨some e, standalone⟩ else none

/-- What a document that starts with a declaration starts with. -/
def declarationStart : List Char := "<?xml".toList

/-- The declaration at the front, and what follows it.  A document without one declares nothing. -/
def declaration? (cs : List Char) : Option (Declaration × List Char) :=
  match Text.after? declarationStart cs with
  | some (c :: rest) =>
    if isSpace c || c == '?' then do
      let (settings, rest) ← declarationTail (cs.length + 1) (c :: rest)
      let d ← declarationOf settings
      return (d, rest)
    else some ({}, cs)
  | _ => some ({}, cs)

/-! ## Characters -/

/-- A name in small letters with one underscore for every stretch of other signs. -/
def plainLabel (name : String) : String :=
  let words := (Text.splitBy (fun c => !(c.isAlphanum || c == '.')) (name.toList.map Char.toLower)).filter (!·.isEmpty)
  String.ofList (['_'].intercalate words)

/-- Other names under which an encoding for Western Europe is known. -/
def latinLabels : List String :=
  ["8859", "cp819", "ibm819", "iso8859", "iso8859_1", "iso_8859_1", "iso_ir_100", "l1", "latin", "latin1", "latin_1"]

/-- Names that stand for ASCII alone.  The universal encoding is among them when its name lacks the hyphen. -/
def asciiLabels : List String :=
  ["646", "ascii", "cp367", "ibm367", "iso646_us", "iso_ir_6", "us", "us_ascii", "u8", "utf", "utf8", "utf_8"]

/-- The encodings with one byte to an ASCII character, by their names. -/
def encodingNamed? (name : String) : Option Encoding :=
  let label := plainLabel name
  if name.toList.map Char.toLower == "utf-8".toList then some .utf8
  else if latinLabels.contains label then some .latin1
  else if ["1252", "cp1252", "windows_1252"].contains label then some .windows1252
  else if asciiLabels.contains label then some .ascii
  else none

def isWideName (name : String) (order : ByteOrder) : Bool :=
  let plain := String.ofList (name.toList.map Char.toLower)
  plain == "utf-16" || plain == (if order = .big then "utf-16be" else "utf-16le")

def isKnownName (name : String) : Bool :=
  isWideName name .big || isWideName name .little || (encodingNamed? name).isSome

def latinChars (bytes : List UInt8) : List Char := bytes.map fun b => Char.ofNat b.toNat

/-- What stands between 0x80 and 0x9F in the Western European code page; five places are empty. -/
def windowsBlock : List Nat := [
  0x20AC, 0, 0x201A, 0x192, 0x201E, 0x2026, 0x2020, 0x2021, 0x2C6, 0x2030, 0x160, 0x2039, 0x152, 0, 0x17D, 0,
  0, 0x2018, 0x2019, 0x201C, 0x201D, 0x2022, 0x2013, 0x2014, 0x2DC, 0x2122, 0x161, 0x203A, 0x153, 0, 0x17E, 0x178]

def windowsChar? (b : UInt8) : Option Char :=
  if 0x80 ≤ b && b < 0xA0 then
    let n := windowsBlock.getD (b.toNat - 0x80) 0
    if n = 0 then none else some (Char.ofNat n)
  else some (Char.ofNat b.toNat)

/-- The units of two bytes each, if the bytes are even in number. -/
def units (order : ByteOrder) : List UInt8 → Option (List Nat)
  | [] => some []
  | [_] => none
  | a :: b :: rest =>
    let unit := if order = .big then a.toNat * 256 + b.toNat else b.toNat * 256 + a.toNat
    (units order rest).map (unit :: ·)

/-- The characters that units stand for, if no half of a pair stands alone. -/
def unitChars : List Nat → Option (List Char)
  | [] => some []
  | [u] => if 0xD800 ≤ u && u < 0xE000 then none else some [Char.ofNat u]
  | u :: v :: rest =>
    if 0xD800 ≤ u && u < 0xDC00 then
      if 0xDC00 ≤ v && v < 0xE000 then
        (unitChars rest).map (Char.ofNat (0x10000 + (u - 0xD800) * 0x400 + (v - 0xDC00)) :: ·)
      else none
    else if 0xDC00 ≤ u && u < 0xE000 then none
    else (unitChars (v :: rest)).map (Char.ofNat u :: ·)

def decodeIn (e : Encoding) (bytes : List UInt8) : Option (List Char) :=
  match e with
  | .utf8 => (Text.decode (ByteArray.mk bytes.toArray)).toOption.map String.toList
  | .latin1 => some (latinChars bytes)
  | .windows1252 => bytes.mapM windowsChar?
  | .ascii => if bytes.all (· < 0x80) then some (latinChars bytes) else none
  | .utf16 order => (units order bytes).bind unitChars

/-- Characters of two bytes each, whose declaration has to agree. -/
def decodeWide (order : ByteOrder) (bytes : List UInt8) : Except EncodingFault (Declaration × List Char) :=
  match (decodeIn (.utf16 order) bytes).bind declaration? with
  | none => .error .malformed
  | some (d, rest) =>
    match d.encoding with
    | none => .ok (d, rest)
    | some name =>
      if isWideName name order then .ok (d, rest)
      else if isKnownName name then .error .malformed
      else .error .unknown

/-- Characters in the encoding that is declared. -/
def decodeDeclared (bytes : List UInt8) : Except EncodingFault (Declaration × List Char) :=
  match declaration? (latinChars bytes) with
  | none => .error .malformed
  | some (d, rest) =>
    let name := d.encoding.getD "utf-8"
    if isWideName name .big || isWideName name .little then .error .malformed
    else
      match encodingNamed? name with
      | none => .error .unknown
      | some e =>
        match decodeIn e (bytes.drop (bytes.length - rest.length)) with
        | some cs => .ok (d, cs)
        | none => .error .malformed

/-- The declaration of a document and the characters behind it. -/
def decodeDocument (bytes : List UInt8) : Except EncodingFault (Declaration × List Char) :=
  match bytes with
  | 0xEF :: 0xBB :: 0xBF :: rest => decodeDeclared rest
  | 0xFE :: 0xFF :: rest => decodeWide .big rest
  | 0xFF :: 0xFE :: rest => decodeWide .little rest
  | 0x00 :: 0x3C :: _ => decodeWide .big bytes
  | 0x3C :: 0x00 :: _ => decodeWide .little bytes
  | _ => decodeDeclared bytes

end Markup
end ModuleLink
