/-!
Binary numbers of 53 digits: the one nearest to a decimal, and the shortest decimal that reads back.  All arithmetic is
exact.
-/

namespace ModuleLink
namespace Number

/-- A number of double precision.  A finite one is `mantissa * 2 ^ exponent`, the exponent as small as 53 digits and the
least exponent allow. -/
inductive Real where
  | finite (negative : Bool) (mantissa : Nat) (exponent : Int)
  | infinite (negative : Bool)
  | notNumber
deriving DecidableEq

namespace Real

/-- The least and the greatest exponent. -/
def leastExponent : Int := -1074
def greatestExponent : Int := 971

def isZero : Real → Bool
  | finite _ m _ => m == 0
  | _ => false

/-- The quotient nearest to `n / d`; of two the even one. -/
def nearest (n d : Nat) : Nat :=
  let q := n / d
  let r := n % d
  if 2 * r < d then q else if 2 * r > d then q + 1 else if q % 2 = 0 then q else q + 1

/-- The number nearest to `n / d * 2 ^ (-e)`, as a mantissa. -/
def scaled (n d : Nat) (e : Int) : Nat :=
  if 0 ≤ e then nearest n (d * Nat.pow 2 e.toNat) else nearest (n * Nat.pow 2 (-e).toNat) d

/-- The double nearest to `n / d`. -/
def ofRatio (negative : Bool) (n d : Nat) : Real :=
  if n = 0 then .finite negative 0 leastExponent
  else
    let guess : Int := (n.log2 : Int) - d.log2 - 53
    let least := max guess leastExponent
    let fits (e : Int) : Bool := scaled n d e < Nat.pow 2 53
    let e := if fits least then least else if fits (least + 1) then least + 1 else least + 2
    let m := scaled n d e
    if greatestExponent < e then .infinite negative else .finite negative m e

/-- How many decimal digits a number has. -/
def digitCount (n : Nat) : Nat := (Nat.toDigits 10 n).length

/-- The double nearest to `digits * 10 ^ exponent`. -/
def ofDecimal (negative : Bool) (digits : Nat) (exponent : Int) : Real :=
  let size : Int := (digitCount digits : Int) + exponent
  if digits = 0 || size < -330 then .finite negative 0 leastExponent
  else if 311 < size then .infinite negative
  else if 0 ≤ exponent then ofRatio negative (digits * Nat.pow 10 exponent.toNat) 1
  else ofRatio negative digits (Nat.pow 10 (-exponent).toNat)

/-! ## Shortest decimals -/

/-- A positive finite double as a quotient, with half the distance to its neighbours below and above over the same
denominator. -/
structure Neighbourhood where
  num : Nat
  den : Nat
  below : Nat
  above : Nat
  closed : Bool

def neighbourhood (m : Nat) (e : Int) : Neighbourhood :=
  let narrow := m == Nat.pow 2 52 && leastExponent < e
  let up := if 0 ≤ e then Nat.pow 2 e.toNat else 1
  let down := if 0 ≤ e then 1 else Nat.pow 2 (-e).toNat
  ⟨4 * m * up, 4 * down, if narrow then up else 2 * up, 2 * up, m % 2 == 0⟩

/-- The exponent of the leading digit of a quotient, plus one. -/
def decimalPoint (num den : Nat) : Int :=
  let below (k : Int) : Bool :=
    if 0 ≤ k then num < den * Nat.pow 10 k.toNat else num * Nat.pow 10 (-k).toNat < den
  let guess : Int := (digitCount num : Int) - digitCount den
  if below guess then guess else guess + 1

/-- The digits of the number nearest to the middle of the neighbourhood among those with `count` digits, if it lies in
the neighbourhood. -/
def candidate (h : Neighbourhood) (point : Int) (count : Nat) : Option Nat :=
  let k : Int := point - count
  let num := if 0 ≤ k then h.num else h.num * Nat.pow 10 (-k).toNat
  let grid := if 0 ≤ k then h.den * Nat.pow 10 k.toNat else h.den
  let scale := if 0 ≤ k then 1 else Nat.pow 10 (-k).toNat
  let low := num / grid
  let down := num - low * grid
  let up := (low + 1) * grid - num
  let lowFits := down < h.below * scale || (h.closed && down == h.below * scale)
  let highFits := up < h.above * scale || (h.closed && up == h.above * scale)
  if lowFits && (!highFits || down < up || (down == up && low % 2 == 0)) then some low
  else if highFits then some (low + 1)
  else none

/-- The digits of the shortest decimal in the neighbourhood and the place of its point; `count` digits come first. -/
def shortestFrom (h : Neighbourhood) (point : Int) : (tries count : Nat) → Nat × Int
  | 0, count => ((candidate h point count).getD 0, point - count)
  | t + 1, count =>
    match candidate h point count with
    | some digits => (digits, point - count)
    | none => shortestFrom h point t (count + 1)

/-- Digits without zeros at the end, and the exponent of the last one. -/
def trimZeros : (fuel : Nat) → Nat × Int → Nat × Int
  | 0, r => r
  | f + 1, (d, k) => if d % 10 = 0 && d ≠ 0 then trimZeros f (d / 10, k + 1) else (d, k)

/-- The shortest decimal that reads back, as digits and exponent. -/
def shortest (m : Nat) (e : Int) : Nat × Int :=
  let h := neighbourhood m e
  trimZeros 18 (shortestFrom h (decimalPoint h.num h.den) 16 1)

/-! ## Text -/

def zeros (n : Nat) : List Char := List.replicate n '0'

/-- Digits with the point behind `point` of them; numbers far from one get an exponent of two digits or more. -/
def layout (digits : List Char) (point : Int) : List Char :=
  if -4 < point && point ≤ 16 then
    if point ≤ 0 then "0.".toList ++ zeros (-point).toNat ++ digits
    else
      let whole := digits.take point.toNat
      let part := digits.drop point.toNat
      whole ++ zeros (point.toNat - digits.length) ++ '.' :: if part.isEmpty then ['0'] else part
  else
    let exponent := point - 1
    let sign := if exponent < 0 then '-' else '+'
    let size := Nat.toDigits 10 exponent.natAbs
    let body := match digits with
      | [d] => [d]
      | d :: rest => d :: '.' :: rest
      | [] => []
    body ++ 'e' :: sign :: zeros (2 - size.length) ++ size

def toString : Real → String
  | finite negative m e =>
    let sign := if negative then "-" else ""
    if m = 0 then sign ++ "0.0"
    else
      let (d, k) := shortest m e
      let digits := Nat.toDigits 10 d
      sign ++ String.ofList (layout digits (k + digits.length))
  | infinite negative => if negative then "-inf" else "inf"
  | notNumber => "nan"

end Real
end Number
end ModuleLink
