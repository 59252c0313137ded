import Restyle.Text.CaseContext
import Restyle.Text.CaseMap
import Restyle.Text.LetterRanges

/-!
# Letters, digits and case

Classification and case mapping of single characters and of texts, with the rules of the Unicode
standard rather than of ASCII alone: names in a module and words in a style value may be written in
any script.
-/

namespace Restyle.Text

/-- Whether a code point lies on one of the rows of a range table. -/
def inRanges (table : Array (Nat × Nat × Nat)) (n : Nat) : Bool :=
  table.any fun (lo, hi, step) => lo ≤ n && n ≤ hi && (n - lo) % step == 0

/-- ASCII capital letters. -/
def isAsciiUpper (c : Char) : Bool :=
  'A' ≤ c && c ≤ 'Z'

/-- ASCII small letters. -/
def isAsciiLower (c : Char) : Bool :=
  'a' ≤ c && c ≤ 'z'

/-- ASCII digits. -/
def isAsciiDigit (c : Char) : Bool :=
  '0' ≤ c && c ≤ '9'

/-- ASCII letters. -/
def isAsciiLetter (c : Char) : Bool :=
  isAsciiUpper c || isAsciiLower c

/-- Letters of any script. -/
def isLetter (c : Char) : Bool :=
  if c.toNat < 128 then isAsciiLetter c else inRanges letterRanges c.toNat

/-- Decimal digits of any script. -/
def isDecimal (c : Char) : Bool :=
  if c.toNat < 128 then isAsciiDigit c else inRanges decimalRanges c.toNat

/-- Digits of any script, superscripts and enclosed digits included. -/
def isDigitSign (c : Char) : Bool :=
  if c.toNat < 128 then isAsciiDigit c else inRanges digitRanges c.toNat

/-- Characters with a numeric value. -/
def isNumeric (c : Char) : Bool :=
  if c.toNat < 128 then isAsciiDigit c else inRanges numericRanges c.toNat

/-- Letters and numeric characters. -/
def isAlphanumeric (c : Char) : Bool :=
  isLetter c || isNumeric c

/-- Letters, numeric characters and the underscore. -/
def isWordChar (c : Char) : Bool :=
  isAlphanumeric c || c == '_'

/-- Uppercase characters. -/
def isUpper (c : Char) : Bool :=
  if c.toNat < 128 then isAsciiUpper c else inRanges upperRanges c.toNat

/-- Lowercase characters. -/
def isLower (c : Char) : Bool :=
  if c.toNat < 128 then isAsciiLower c else inRanges lowerRanges c.toNat

/-- The numeric value of a decimal digit: digits of one script stand in rows of ten. -/
def decimalValue (c : Char) : Nat :=
  if c.toNat < 128 then c.toNat - 48
  else
    match decimalRanges.find? fun (lo, hi, _) => lo ≤ c.toNat && c.toNat ≤ hi with
    | some (lo, _, _) => (c.toNat - lo) % 10
    | none => 0

/-- The natural number that a row of decimal digits denotes. -/
def decimalNat (cs : List Char) : Nat :=
  cs.foldl (fun n c => n * 10 + decimalValue c) 0

/-- Moves a code point by the distance its row of a case map gives. -/
def shiftBy (table : Array (Nat × Nat × Nat × Int)) (n : Nat) : Nat :=
  match table.find? fun (lo, hi, step, _) => lo ≤ n && n ≤ hi && (n - lo) % step == 0 with
  | some (_, _, _, distance) => ((n : Int) + distance).toNat
  | none => n

/-- The longer case form that a table of exceptions gives. -/
def expansion? (table : Array (Nat × List Nat)) (n : Nat) : Option (List Char) :=
  (table.find? fun (m, _) => m == n).map fun (_, ns) => ns.map Char.ofNat

/-- Lowercase form of one character. -/
def lowerChar (c : Char) : List Char :=
  if c.toNat < 128 then [if isAsciiUpper c then Char.ofNat (c.toNat + 32) else c]
  else if c.toNat == 0x130 then [Char.ofNat 0x69, Char.ofNat 0x307]
  else [Char.ofNat (shiftBy lowerShifts c.toNat)]

/-- Uppercase form of one character. -/
def upperChar (c : Char) : List Char :=
  if c.toNat < 128 then [if isAsciiLower c then Char.ofNat (c.toNat - 32) else c]
  else
    match expansion? upperExpansions c.toNat with
    | some cs => cs
    | none => [Char.ofNat (shiftBy upperShifts c.toNat)]

/-- Titlecase form of one character. -/
def titleChar (c : Char) : List Char :=
  if c.toNat < 128 then upperChar c
  else
    match expansion? titleExceptions c.toNat with
    | some cs => cs
    | none => upperChar c

/-- Letters that have a case: upper-, lower- or titlecase. -/
def isCased (c : Char) : Bool :=
  isUpper c || isLower c || inRanges titleRanges c.toNat

/-- Characters that do not separate the cased letters around them. -/
def isCaseIgnorable (c : Char) : Bool :=
  if c.toNat < 128 then c == '\'' || c == '.' || c == ':' || c == '^' || c == '\x60'
  else inRanges caseIgnorableRanges c.toNat

/-- Whether a text continues with a cased letter, looking past what does not separate letters. -/
def continuesCased (cs : List Char) : Bool :=
  (cs.dropWhile isCaseIgnorable).head?.any isCased

/--
Lowercase form of a text.  A capital sigma at the end of a word becomes the final small sigma;
`before` is the text already read, last character first.
-/
def lowerFrom (before : List Char) : List Char → List Char
  | [] => []
  | c :: cs =>
    let low :=
      if c.toNat == 0x3A3 && continuesCased before && !continuesCased cs then [Char.ofNat 0x3C2]
      else lowerChar c
    low ++ lowerFrom (c :: before) cs

/-- Lowercase form of a string. -/
def lower (s : String) : String :=
  String.ofList (lowerFrom [] s.toList)

/-- Uppercase form of a string. -/
def upper (s : String) : String :=
  String.ofList (s.toList.flatMap upperChar)

/--
Whether a character is some form of a small ASCII letter, in any case.  The dotless i and the long s
are forms of their letters, although they are small letters of their own.
-/
def isFormOf (letter c : Char) : Bool :=
  (lowerChar c).head? == some letter || (letter == 'i' && c.toNat == 0x131) ||
    (letter == 's' && c.toNat == 0x17F)

/-- The text after a word of small ASCII letters and signs, in any case. -/
def afterAnyCase? : List Char → List Char → Option (List Char)
  | [], cs => some cs
  | _ :: _, [] => none
  | l :: ls, c :: cs => if isFormOf l c then afterAnyCase? ls cs else none

/-- Titlecase for the first character and lowercase for the rest. -/
def capitalize (s : String) : String :=
  match s.toList with
  | [] => ""
  | c :: cs => String.ofList (titleChar c ++ lowerFrom [c] cs)

/-- The string with its first character in lowercase. -/
def lowerFirst (s : String) : String :=
  match s.toList with
  | [] => ""
  | c :: cs => String.ofList (lowerChar c ++ cs)

/-- The string with its first character in uppercase. -/
def upperFirst (s : String) : String :=
  match s.toList with
  | [] => ""
  | c :: cs => String.ofList (upperChar c ++ cs)

/-- Whether a string starts with an uppercase character. -/
def startsUpper (s : String) : Bool :=
  match s.toList with
  | [] => false
  | c :: _ => isUpper c

/-- Whether a string starts with a lowercase character. -/
def startsLower (s : String) : Bool :=
  match s.toList with
  | [] => false
  | c :: _ => isLower c

end Restyle.Text
