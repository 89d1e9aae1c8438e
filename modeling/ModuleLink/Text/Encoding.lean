import ModuleLink.Fault
import ModuleLink.Text.Search

/-!
Texts as bytes.  Decoding either gives the one text that has these bytes or names the first bytes that spoil it.
-/

namespace ModuleLink
namespace Text

/-- How many bytes may follow a first byte, and between which bounds the second one lies. -/
def leadOf (b : UInt8) : Option (Nat × UInt8 × UInt8) :=
  if b < 0x80 then some (0, 0x80, 0xBF)
  else if b < 0xC2 then none
  else if b < 0xE0 then some (1, 0x80, 0xBF)
  else if b == 0xE0 then some (2, 0xA0, 0xBF)
  else if b == 0xED then some (2, 0x80, 0x9F)
  else if b < 0xF0 then some (2, 0x80, 0xBF)
  else if b == 0xF0 then some (3, 0x90, 0xBF)
  else if b < 0xF4 then some (3, 0x80, 0xBF)
  else if b == 0xF4 then some (3, 0x80, 0x8F)
  else none

/-- How many of the `want` bytes after a first byte are there; the second one lies between `low` and `high`. -/
def tailLength (low high : UInt8) : (want : Nat) → List UInt8 → Nat
  | 0, _ => 0
  | _, [] => 0
  | n + 1, b :: bs => if low ≤ b && b ≤ high then tailLength 0x80 0xBF n bs + 1 else 0

/-- What stands at the front of the bytes: a character's bytes, or bytes that are none and why. -/
inductive Front where
  | character (length : Nat)
  | fault (length : Nat) (reason : Malformation)

def front (b : UInt8) (bs : List UInt8) : Front :=
  match leadOf b with
  | none => .fault 1 .badStart
  | some (want, low, high) =>
    let got := tailLength low high want bs
    if got = want then .character (want + 1)
    else if bs.length ≤ got then .fault (got + 1) .endOfData
    else .fault (got + 1) .badContinuation

/-- The first bytes that are no character; `busy` bytes belong to the character before. -/
def firstFault (place : Nat) : (busy : Nat) → List UInt8 → Option Undecodable
  | _, [] => none
  | k + 1, _ :: bs => firstFault (place + 1) k bs
  | 0, b :: bs =>
    match front b bs with
    | .character n => firstFault (place + 1) (n - 1) bs
    | .fault n reason => some ⟨b, place, place + n - 1, reason⟩

def decode (bytes : ByteArray) : Except Undecodable String :=
  match String.fromUTF8? bytes with
  | some s => .ok s
  | none => .error ((firstFault 0 0 bytes.toList).getD ⟨0, 0, 0, .badStart⟩)

/-- The mark that stands for bytes that are no character. -/
def replacement : Char := '\uFFFD'

/-- The bytes with every stretch that is no character replaced by a mark. -/
def repaired : (busy : Nat) → List UInt8 → List UInt8
  | _, [] => []
  | k + 1, _ :: bs => repaired k bs
  | 0, b :: bs =>
    match front b bs with
    | .character n => b :: bs.take (n - 1) ++ repaired (n - 1) bs
    | .fault n _ => replacement.toString.toUTF8.toList ++ repaired (n - 1) bs

def decodeLossy (bytes : ByteArray) : String :=
  (String.fromUTF8? (ByteArray.mk (repaired 0 bytes.toList).toArray)).getD ""

/-- Every line end becomes a line feed. -/
def foldNewlines : List Char → List Char
  | [] => []
  | '\r' :: '\n' :: cs => '\n' :: foldNewlines cs
  | '\r' :: cs => '\n' :: foldNewlines cs
  | c :: cs => c :: foldNewlines cs

end Text
end ModuleLink
