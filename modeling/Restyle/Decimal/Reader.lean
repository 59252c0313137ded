import Restyle.Decimal.Double
import Restyle.Text.Letter

/-!
# Reading decimals

Decimal numerals with an optional sign, fraction and exponent, in the digits of any script.
-/

namespace Restyle.Double

/-- A sign and what follows it. -/
def takeSign : List Char → Bool × List Char
  | '-' :: cs => (true, cs)
  | '+' :: cs => (false, cs)
  | cs => (false, cs)

/-- The exponent part of a numeral; `none` when it is malformed. -/
def readExponent? : List Char → Option Int
  | [] => some 0
  | c :: cs =>
    if c == 'e' || c == 'E' then
      let (negative, ds) := takeSign cs
      if ds.isEmpty || !ds.all Text.isDecimal then none
      else
        let n : Int := Text.decimalNat ds
        some (if negative then -n else n)
    else none

/-- Reads `digits [. digits] [e exponent]` with at least one digit. -/
def ofNumeral? (cs : List Char) : Option Double :=
  let (negative, cs) := takeSign cs
  let whole := cs.takeWhile Text.isDecimal
  let rest := cs.dropWhile Text.isDecimal
  let (fraction, rest) :=
    match rest with
    | '.' :: more => (more.takeWhile Text.isDecimal, more.dropWhile Text.isDecimal)
    | _ => ([], rest)
  if whole.isEmpty && fraction.isEmpty then none
  else
    (readExponent? rest).map fun exponent =>
      ofDecimal negative (Text.decimalNat (whole ++ fraction)) (exponent - fraction.length)

/-- Reads a numeral or one of the names of the numbers that are not finite. -/
def ofText? (s : String) : Option Double :=
  match s with
  | "inf" => some (.infinite false)
  | "-inf" => some (.infinite true)
  | "nan" => some .nan
  | _ => ofNumeral? s.toList

end Restyle.Double
