/-!
# Binary floating point

Numbers of a style sheet that are not whole are binary64 numbers.  A finite one is kept as a sign, a
mantissa below `2 ^ 53` and an exponent, so reading and writing decimals is exact arithmetic on
natural numbers.
-/

namespace Restyle

/-- A binary64 number; the finite one of `negative`, `mantissa`, `exponent` is `± mantissa · 2 ^ exponent`. -/
inductive Double where
  | finite (negative : Bool) (mantissa : Nat) (exponent : Int)
  | infinite (negative : Bool)
  | nan
  deriving DecidableEq, Repr

namespace Double

/-- The quotient `num / den` to the nearest natural number, a half to the even neighbour. -/
def roundQuotient (num den : Nat) : Nat :=
  let q := num / den
  let r := num % den
  if 2 * r < den then q
  else if 2 * r > den then q + 1
  else if q % 2 == 0 then q
  else q + 1

/-- `num / (den · 2 ^ q)` as a numerator and a denominator. -/
def scaled (num den : Nat) (q : Int) : Nat × Nat :=
  if 0 ≤ q then (num, den * Nat.pow 2 q.toNat) else (num * Nat.pow 2 (-q).toNat, den)

/-- The binary64 number nearest to `num / den`. -/
def ofRatio (negative : Bool) (num den : Nat) : Double :=
  if num == 0 then .finite negative 0 (-1074)
  else
    let guess : Int := (Nat.log2 num : Int) - (Nat.log2 den : Int) - 52
    let (n, d) := scaled num den guess
    let q : Int := if n / d < Nat.pow 2 52 then guess - 1 else guess
    let q : Int := if q < -1074 then -1074 else q
    let (n, d) := scaled num den q
    let m := roundQuotient n d
    let (m, q) := if m == Nat.pow 2 53 then (Nat.pow 2 52, q + 1) else (m, q)
    if q > 971 then .infinite negative else .finite negative m q

/-- The number of decimal digits of a natural number. -/
def digitCount (n : Nat) : Nat :=
  (Nat.toDigits 10 n).length

/-- The binary64 number nearest to `digits · 10 ^ exponent`. -/
def ofDecimal (negative : Bool) (digits : Nat) (exponent : Int) : Double :=
  if digits == 0 then .finite negative 0 (-1074)
  else if (digitCount digits : Int) + exponent > 400 then .infinite negative
  else if (digitCount digits : Int) + exponent < -400 then .finite negative 0 (-1074)
  else if 0 ≤ exponent then ofRatio negative (digits * Nat.pow 10 exponent.toNat) 1
  else ofRatio negative digits (Nat.pow 10 (-exponent).toNat)

/-- The binary64 number nearest to an integer. -/
def ofInt (n : Int) : Double :=
  ofRatio (n < 0) n.natAbs 1

/-- The number with the opposite sign. -/
def neg : Double → Double
  | .finite s m e => .finite (!s) m e
  | .infinite s => .infinite (!s)
  | .nan => .nan

/-- Whether a number is one of the two zeros. -/
def isZero : Double → Bool
  | .finite _ 0 _ => true
  | _ => false

/-- The integer a number is equal to, if there is one. -/
def toInt? : Double → Option Int
  | .finite s m e =>
    let magnitude : Option Nat :=
      if 0 ≤ e then some (m * Nat.pow 2 e.toNat)
      else if m % Nat.pow 2 (-e).toNat == 0 then some (m / Nat.pow 2 (-e).toNat)
      else none
    magnitude.map fun n => if s then -(n : Int) else (n : Int)
  | _ => none

/-- Whether a number is whole. -/
def isWhole (x : Double) : Bool :=
  x.toInt?.isSome

end Double

end Restyle
