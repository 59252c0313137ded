import Restyle.Data.Basic
import Restyle.Decimal.Reader
import Restyle.Text.Quoted

/-!
# Scalars of settings files

Texts, numbers and dates as a TOML document writes them.  Each reader takes the characters from the
start of a scalar and gives back what follows it.
-/

namespace Restyle.Toml

/-- Blanks inside a line. -/
def isBlank (c : Char) : Bool := c == ' ' || c == '\t'

/-- Control characters, which may stand nowhere but where it is said. -/
def isControl (c : Char) : Bool := c.toNat < 32 || c.toNat == 127

/-! ## Texts -/

/-- A number of hexadecimal digits. -/
def hexNat? : Nat → Nat → List Char → Option (Nat × List Char)
  | 0, value, cs => some (value, cs)
  | n + 1, value, c :: cs => (Text.hexValue? c).bind fun d => hexNat? n (16 * value + d) cs
  | _ + 1, _, [] => none

/-- A character given by its number, which must not be half of a pair. -/
def numberedChar? (digits : Nat) (cs : List Char) : Option (Char × List Char) := do
  let (n, rest) ← hexNat? digits 0 cs
  if n < 0xD800 || (0xDFFF < n && n < 0x110000) then some (Char.ofNat n, rest) else none

/-- The character that an escape stands for, after the backslash. -/
def escape? : List Char → Option (Char × List Char)
  | 'b' :: cs => some ('\x08', cs)
  | 't' :: cs => some ('\t', cs)
  | 'n' :: cs => some ('\n', cs)
  | 'f' :: cs => some ('\x0c', cs)
  | 'r' :: cs => some ('\r', cs)
  | '"' :: cs => some ('"', cs)
  | '\\' :: cs => some ('\\', cs)
  | 'u' :: cs => numberedChar? 4 cs
  | 'U' :: cs => numberedChar? 8 cs
  | _ => none

/-- What follows a backslash at the end of a line; `none` when there is none. -/
def foldedLine? (cs : List Char) : Option (List Char) :=
  match cs with
  | c :: _ =>
    if isBlank c || c == '\n' then
      match cs.dropWhile isBlank with
      | [] => some []
      | '\n' :: rest => some (rest.dropWhile fun c => isBlank c || c == '\n')
      | _ => none
    else none
  | [] => none

/-- The text up to a closing quote on the same line, with at most `n` characters to read. -/
def lineText? : Nat → List Char → Option (List Char × List Char)
  | 0, _ => none
  | _ + 1, [] => none
  | _ + 1, '"' :: cs => some ([], cs)
  | n + 1, '\\' :: cs => do
    let (c, cs) ← escape? cs
    let (text, rest) ← lineText? n cs
    return (c :: text, rest)
  | n + 1, c :: cs => do
    if isControl c && c != '\t' then none
    let (text, rest) ← lineText? n cs
    return (c :: text, rest)

/-- The text up to three closing quotes. -/
def linesText? : Nat → List Char → Option (List Char × List Char)
  | 0, _ => none
  | _ + 1, [] => none
  | _ + 1, '"' :: '"' :: '"' :: cs => some ([], cs)
  | n + 1, '\\' :: cs =>
    match foldedLine? cs with
    | some cs => linesText? n cs
    | none => do
      let (c, cs) ← escape? cs
      let (text, rest) ← linesText? n cs
      return (c :: text, rest)
  | n + 1, c :: cs => do
    if isControl c && c != '\t' && c != '\n' then none
    let (text, rest) ← linesText? n cs
    return (c :: text, rest)

/-- The text up to a closing apostrophe on the same line. -/
def plainLine? : List Char → Option (List Char × List Char)
  | [] => none
  | '\'' :: cs => some ([], cs)
  | c :: cs => do
    if isControl c && c != '\t' then none
    let (text, rest) ← plainLine? cs
    return (c :: text, rest)

/-- The text up to three closing apostrophes. -/
def plainLines? : List Char → Option (List Char × List Char)
  | [] => none
  | '\'' :: '\'' :: '\'' :: cs => some ([], cs)
  | c :: cs => do
    if isControl c && c != '\t' && c != '\n' then none
    let (text, rest) ← plainLines? cs
    return (c :: text, rest)

/-- Up to two further quotes after three closing ones belong to the text. -/
def withExtra (quote : Char) (text rest : List Char) : List Char × List Char :=
  let extra := (rest.take 2).takeWhile (· == quote)
  (text ++ extra, rest.drop extra.length)

/-- Characters without a line break at their start. -/
def dropBreak : List Char → List Char
  | '\n' :: cs => cs
  | cs => cs

/-- A text in quotes or apostrophes. -/
def text? (cs : List Char) : Option (String × List Char) := do
  let (text, rest) ←
    match cs with
    | '"' :: '"' :: '"' :: cs =>
      (linesText? (cs.length + 1) (dropBreak cs)).map fun (t, rest) => withExtra '"' t rest
    | '"' :: cs => lineText? (cs.length + 1) cs
    | '\'' :: '\'' :: '\'' :: cs =>
      (plainLines? (dropBreak cs)).map fun (t, rest) => withExtra '\'' t rest
    | '\'' :: cs => plainLine? cs
    | _ => none
  return (String.ofList text, rest)

/-! ## Numbers -/

/-- Digits, between which single underscores may stand. -/
def moreDigits (isDigit : Char → Bool) : List Char → List Char × List Char
  | '_' :: c :: cs =>
    if isDigit c then
      let (ds, rest) := moreDigits isDigit cs
      (c :: ds, rest)
    else ([], '_' :: c :: cs)
  | c :: cs =>
    if isDigit c then
      let (ds, rest) := moreDigits isDigit cs
      (c :: ds, rest)
    else ([], c :: cs)
  | [] => ([], [])

/-- One or more digits. -/
def digits? (isDigit : Char → Bool) : List Char → Option (List Char × List Char)
  | c :: cs =>
    if isDigit c then
      let (ds, rest) := moreDigits isDigit cs
      some (c :: ds, rest)
    else none
  | [] => none

/-- Whether a character is a digit of a base. -/
def isDigitOf (base : Nat) (c : Char) : Bool :=
  (Text.hexValue? c).any (· < base)

/-- The number of digits in a base. -/
def natOf (base : Nat) (ds : List Char) : Nat :=
  ds.foldl (fun n c => base * n + (Text.hexValue? c).getD 0) 0

/-- A whole number in a base, after its mark. -/
def based? (base : Nat) (cs : List Char) : Option (Data × List Char) :=
  (digits? (isDigitOf base) cs).map fun (ds, rest) => (.int (natOf base ds), rest)

/-- The digits before the point: a zero, or digits that start with none. -/
def wholeDigits? : List Char → Option (List Char × List Char)
  | '0' :: cs => some (['0'], cs)
  | cs => digits? (isDigitOf 10) cs

/-- The fraction of a number, with its point. -/
def fraction (cs : List Char) : List Char × List Char :=
  match cs with
  | '.' :: rest =>
    match digits? (isDigitOf 10) rest with
    | some (ds, rest) => ('.' :: ds, rest)
    | none => ([], cs)
  | _ => ([], cs)

/-- The exponent of a number, with its letter. -/
def exponent (cs : List Char) : List Char × List Char :=
  match cs with
  | e :: rest =>
    if e == 'e' || e == 'E' then
      let (sign, rest) :=
        match rest with
        | '+' :: more => (['+'], more)
        | '-' :: more => (['-'], more)
        | _ => ([], rest)
      match digits? (isDigitOf 10) rest with
      | some (ds, rest) => ('e' :: sign ++ ds, rest)
      | none => ([], cs)
    else ([], cs)
  | [] => ([], cs)

/-- A decimal number. -/
def decimal? (cs : List Char) : Option (Data × List Char) := do
  let (negative, rest) := Double.takeSign cs
  let (whole, rest) ← wholeDigits? rest
  let (part, rest) := fraction rest
  let (power, rest) := exponent rest
  if part.isEmpty && power.isEmpty then
    let n : Int := natOf 10 whole
    some (.int (if negative then -n else n), rest)
  else
    let sign := if negative then ['-'] else []
    let x ← Double.ofNumeral? (sign ++ whole ++ part ++ power)
    some (.float x, rest)

/-- A number that is not finite. -/
def special? (cs : List Char) : Option (Data × List Char) := do
  let (negative, rest) := Double.takeSign cs
  match rest with
  | 'i' :: 'n' :: 'f' :: rest => some (.float (.infinite negative), rest)
  | 'n' :: 'a' :: 'n' :: rest => some (.float .nan, rest)
  | _ => none

/-- A number. -/
def number? (cs : List Char) : Option (Data × List Char) :=
  let marked :=
    match cs with
    | '0' :: 'x' :: rest => based? 16 rest
    | '0' :: 'o' :: rest => based? 8 rest
    | '0' :: 'b' :: rest => based? 2 rest
    | _ => none
  (marked.or (decimal? cs)).or (special? cs)

/-! ## Dates and times -/

/-- Exactly `n` digits that form a number between two bounds. -/
def fixedNat? (n low high : Nat) (cs : List Char) : Option (Nat × List Char) :=
  let ds := cs.take n
  let value := natOf 10 ds
  if ds.length == n && ds.all (isDigitOf 10) && low ≤ value && value ≤ high then
    some (value, cs.drop n)
  else none

/-- A given character. -/
def mark? (mark : Char) : List Char → Option (List Char)
  | c :: cs => if c == mark then some cs else none
  | [] => none

/-- A time of day. -/
def time? (cs : List Char) : Option (List Char) := do
  let (_, cs) ← fixedNat? 2 0 23 cs
  let (_, cs) ← fixedNat? 2 0 59 (← mark? ':' cs)
  let (_, cs) ← fixedNat? 2 0 59 (← mark? ':' cs)
  match cs with
  | '.' :: rest =>
    let ds := rest.takeWhile (isDigitOf 10)
    some (if ds.isEmpty then cs else rest.drop ds.length)
  | _ => some cs

/-- The distance from universal time, if there is one. -/
def zone (cs : List Char) : List Char :=
  match cs with
  | c :: rest =>
    if c == 'Z' || c == 'z' then rest
    else if c == '+' || c == '-' then
      let after? := do
        let (_, more) ← fixedNat? 2 0 23 rest
        let (_, more) ← fixedNat? 2 0 59 (← mark? ':' more)
        return more
      after?.getD cs
    else cs
  | [] => []

/-- The number of days of a month. -/
def daysOf (year month : Nat) : Nat :=
  if month == 2 then
    if year % 4 == 0 && (year % 100 != 0 || year % 400 == 0) then 29 else 28
  else if [4, 6, 9, 11].contains month then 30
  else 31

/-- The end of a date or time, and whether the date exists; `none` when there is neither. -/
def dateEnd? (cs : List Char) : Option (Bool × List Char) :=
  let date? := do
    let (year, rest) ← fixedNat? 4 0 9999 cs
    let (month, rest) ← fixedNat? 2 1 12 (← mark? '-' rest)
    let (day, rest) ← fixedNat? 2 1 31 (← mark? '-' rest)
    return (0 < year && day ≤ daysOf year month, rest)
  match date? with
  | some (isReal, rest) =>
    let withTime? :=
      match rest with
      | c :: more => if c == 'T' || c == 't' || c == ' ' then (time? more).map zone else none
      | [] => none
    some (isReal, withTime?.getD rest)
  | none => (time? cs).map fun rest => (true, rest)

/-- A date or time, kept as a list with its text; a date that does not exist is none. -/
def date? (cs : List Char) : Option (Option (Data × List Char)) :=
  (dateEnd? cs).map fun (isReal, rest) =>
    if isReal then
      some (.list [.str (String.ofList (cs.take (cs.length - rest.length)))], rest)
    else none

/-- A scalar. -/
def scalar? (cs : List Char) : Option (Data × List Char) :=
  match cs with
  | 't' :: 'r' :: 'u' :: 'e' :: rest => some (.bool true, rest)
  | 'f' :: 'a' :: 'l' :: 's' :: 'e' :: rest => some (.bool false, rest)
  | c :: _ =>
    if c == '"' || c == '\'' then (text? cs).map fun (s, rest) => (.str s, rest)
    else
      match date? cs with
      | some reading => reading
      | none => number? cs
  | [] => none

end Restyle.Toml
