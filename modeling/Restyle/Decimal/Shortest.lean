import Restyle.Decimal.Double

/-!
# Shortest decimals

Among the decimals that read back as a given binary64 number, the written one has the fewest digits
and, of those, lies nearest to the number.  The layout of the digits is a decision of its own:
positional notation from `10 ^ -4` up to below `10 ^ 16`, and a signed two-digit exponent outside.
-/

namespace Restyle.Double

/-- A positive rational as numerator and denominator: `m · 2 ^ e`. -/
def binaryRatio (m : Nat) (e : Int) : Nat × Nat :=
  if 0 ≤ e then (m * Nat.pow 2 e.toNat, 1) else (m, Nat.pow 2 (-e).toNat)

/-- The largest `x` with `10 ^ x ≤ num / den`. -/
def decimalExponent (num den : Nat) : Int :=
  let guess : Int := (digitCount num : Int) - (digitCount den : Int)
  let atLeast :=
    if 0 ≤ guess then den * Nat.pow 10 guess.toNat ≤ num else den ≤ num * Nat.pow 10 (-guess).toNat
  if atLeast then guess else guess - 1

/--
The decimal of `count` digits nearest to a number inside its rounding interval, if the interval holds
one.  The number and the two ends of the interval are multiples of `1 / 4` of the last place.
-/
def nearestOfSize? (m : Nat) (e : Int) (exponent : Int) (count : Nat) : Option (Nat × Int) :=
  let k : Int := exponent - count + 1
  let (num, den) := binaryRatio 1 (e - 2)
  let (p, q) := if 0 ≤ k then (Nat.pow 10 k.toNat, 1) else (1, Nat.pow 10 (-k).toNat)
  let scale := num * q
  let unit := p * den
  let value := 4 * m * scale
  let low := (if m == Nat.pow 2 52 && e > -1074 then 4 * m - 1 else 4 * m - 2) * scale
  let high := (4 * m + 2) * scale
  let inside (d : Nat) : Bool :=
    if m % 2 == 0 then low ≤ d * unit && d * unit ≤ high else low < d * unit && d * unit < high
  let below := value / unit
  let above := below + 1
  match inside below, inside above with
  | true, true => some (if value - below * unit ≤ above * unit - value then below else above, k)
  | true, false => some (below, k)
  | false, true => some (above, k)
  | false, false => none

/-- Removes trailing zeros from a decimal; `fuel` bounds their number. -/
def dropZeros : Nat → Nat → Int → Nat × Int
  | 0, d, k => (d, k)
  | fuel + 1, d, k => if d != 0 && d % 10 == 0 then dropZeros fuel (d / 10) (k + 1) else (d, k)

/-- The shortest decimal of a positive finite number, as digits and a power of ten. -/
def shortest (m : Nat) (e : Int) : Nat × Int :=
  let (num, den) := binaryRatio m e
  let exponent := decimalExponent num den
  let found := (List.range 17).findSome? fun i => nearestOfSize? m e exponent (i + 1)
  let (d, k) := found.getD (num, 0)
  dropZeros (digitCount d) d k

/-- An exponent with its sign and at least two digits. -/
def exponentText (x : Int) : List Char :=
  let digits := Nat.toDigits 10 x.natAbs
  (if x < 0 then '-' else '+') :: (if digits.length < 2 then '0' :: digits else digits)

/-- Positional text for exponents from -4 to 15, scientific text otherwise. -/
def layout (digits : Nat) (k : Int) : List Char :=
  let ds := Nat.toDigits 10 digits
  let exponent : Int := k + ds.length - 1
  if -4 ≤ exponent && exponent < 16 then
    if 0 ≤ k then ds ++ List.replicate k.toNat '0' ++ ['.', '0']
    else if 0 ≤ exponent then
      ds.take (exponent.toNat + 1) ++ '.' :: ds.drop (exponent.toNat + 1)
    else '0' :: '.' :: List.replicate ((-exponent).toNat - 1) '0' ++ ds
  else
    match ds with
    | [] => []
    | d :: rest =>
      d :: (if rest.isEmpty then [] else '.' :: rest) ++ 'e' :: exponentText exponent

/-- The shortest text of a number. -/
def text : Double → String
  | .finite s m e =>
    let body := if m == 0 then ['0', '.', '0'] else let (d, k) := shortest m e; layout d k
    String.ofList (if s then '-' :: body else body)
  | .infinite s => if s then "-inf" else "inf"
  | .nan => "nan"

end Restyle.Double
