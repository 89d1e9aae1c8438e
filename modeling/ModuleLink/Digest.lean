/-!
The MD5 digest of a byte sequence (RFC 1321), and the object identifiers derived from it.
-/

namespace ModuleLink
namespace Digest

/-- The four running words. -/
structure State where
  a : UInt32
  b : UInt32
  c : UInt32
  d : UInt32

def start : State := ⟨0x67452301, 0xefcdab89, 0x98badcfe, 0x10325476⟩

/-- The additive constant of every step. -/
def sines : Array UInt32 := #[
  0xd76aa478, 0xe8c7b756, 0x242070db, 0xc1bdceee, 0xf57c0faf, 0x4787c62a, 0xa8304613, 0xfd469501,
  0x698098d8, 0x8b44f7af, 0xffff5bb1, 0x895cd7be, 0x6b901122, 0xfd987193, 0xa679438e, 0x49b40821,
  0xf61e2562, 0xc040b340, 0x265e5a51, 0xe9b6c7aa, 0xd62f105d, 0x02441453, 0xd8a1e681, 0xe7d3fbc8,
  0x21e1cde6, 0xc33707d6, 0xf4d50d87, 0x455a14ed, 0xa9e3e905, 0xfcefa3f8, 0x676f02d9, 0x8d2a4c8a,
  0xfffa3942, 0x8771f681, 0x6d9d6122, 0xfde5380c, 0xa4beea44, 0x4bdecfa9, 0xf6bb4b60, 0xbebfbc70,
  0x289b7ec6, 0xeaa127fa, 0xd4ef3085, 0x04881d05, 0xd9d4d039, 0xe6db99e5, 0x1fa27cf8, 0xc4ac5665,
  0xf4292244, 0x432aff97, 0xab9423a7, 0xfc93a039, 0x655b59c3, 0x8f0ccc92, 0xffeff47d, 0x85845dd1,
  0x6fa87e4f, 0xfe2ce6e0, 0xa3014314, 0x4e0811a1, 0xf7537e82, 0xbd3af235, 0x2ad7d2bb, 0xeb86d391]

/-- The rotation of every step: four amounts for each round, used in turn. -/
def rotations : Array UInt32 := #[7, 12, 17, 22, 5, 9, 14, 20, 4, 11, 16, 23, 6, 10, 15, 21]

def rotateLeft (x r : UInt32) : UInt32 := (x <<< r) ||| (x >>> (32 - r))

/-- The mixing function of a round. -/
def mix (round : Nat) (b c d : UInt32) : UInt32 :=
  match round with
  | 0 => (b &&& c) ||| ((~~~ b) &&& d)
  | 1 => (d &&& b) ||| ((~~~ d) &&& c)
  | 2 => b ^^^ c ^^^ d
  | _ => c ^^^ (b ||| (~~~ d))

/-- Which word of the block a step takes. -/
def wordIndex (i : Nat) : Nat :=
  match i / 16 with
  | 0 => i
  | 1 => (5 * i + 1) % 16
  | 2 => (3 * i + 5) % 16
  | _ => (7 * i) % 16

def step (block : Array UInt32) (s : State) (i : Nat) : State :=
  let round := i / 16
  let sum := s.a + mix round s.b s.c s.d + sines.getD i 0 + block.getD (wordIndex i) 0
  ⟨s.d, s.b + rotateLeft sum (rotations.getD (4 * round + i % 4) 0), s.b, s.c⟩

def absorb (s : State) (block : Array UInt32) : State :=
  let t := (List.range 64).foldl (step block) s
  ⟨s.a + t.a, s.b + t.b, s.c + t.c, s.d + t.d⟩

/-- The bytes of a number, least first. -/
def littleEndian : (count n : Nat) → List UInt8
  | 0, _ => []
  | k + 1, n => UInt8.ofNat (n % 256) :: littleEndian k (n / 256)

/-- The message, a one bit, zeros, and the length in bits. -/
def padded (bytes : List UInt8) : List UInt8 :=
  let n := bytes.length
  bytes ++ 0x80 :: List.replicate ((119 - n % 64) % 64) 0 ++ littleEndian 8 (8 * n)

/-- Four bytes to a word, least first. -/
def words : List UInt8 → List UInt32
  | a :: b :: c :: d :: rest =>
    (a.toUInt32 ||| (b.toUInt32 <<< 8) ||| (c.toUInt32 <<< 16) ||| (d.toUInt32 <<< 24)) :: words rest
  | _ => []

/-- Sixteen words to a block. -/
def absorbAll : (blocks : Nat) → State → List UInt32 → State
  | 0, s, _ => s
  | n + 1, s, ws => absorbAll n (absorb s (ws.take 16).toArray) (ws.drop 16)

def md5 (bytes : List UInt8) : List UInt8 :=
  let ws := words (padded bytes)
  let s := absorbAll (ws.length / 16) start ws
  [s.a, s.b, s.c, s.d].flatMap fun w => littleEndian 4 w.toNat

def upperHex (n : Nat) : Char := (Nat.digitChar (n % 16)).toUpper

/-- A 24-character object identifier: the front of the digest of the seed, in upper-case hexadecimal. -/
def stableId (seed : String) : String :=
  String.ofList (((md5 seed.toUTF8.toList).take 12).flatMap fun b => [upperHex (b.toNat / 16), upperHex b.toNat])

end Digest
end ModuleLink
