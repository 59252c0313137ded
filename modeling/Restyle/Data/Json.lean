import Restyle.Data.Basic
import Restyle.Decimal.Reader
import Restyle.Decimal.Shortest
import Restyle.Text.Quoted

/-!
# JSON text

Reading and writing of structured data as JSON.  A repeated field name keeps its first place and its
last value; the names of the numbers that are not finite are accepted.
-/

namespace Restyle.Data

/-- Drops the blanks that JSON allows between tokens. -/
def skipJsonBlanks (cs : List Char) : List Char :=
  cs.dropWhile fun c => c == ' ' || c == '\t' || c == '\n' || c == '\r'

/-- Splits off a run of ASCII digits. -/
def takeDigits (cs : List Char) : List Char × List Char :=
  (cs.takeWhile Text.isAsciiDigit, cs.dropWhile Text.isAsciiDigit)

/-- Reads the fraction of a number, with its point. -/
def takeFraction (cs : List Char) : List Char × List Char :=
  match cs with
  | '.' :: rest =>
    match takeDigits rest with
    | ([], _) => ([], cs)
    | (ds, more) => ('.' :: ds, more)
  | _ => ([], cs)

/-- Reads the exponent of a number, with its mark. -/
def takeExponent (cs : List Char) : List Char × List Char :=
  match cs with
  | e :: rest =>
    if e == 'e' || e == 'E' then
      let (sign, rest) :=
        match rest with
        | '-' :: more => (['-'], more)
        | '+' :: more => (['+'], more)
        | _ => ([], rest)
      match takeDigits rest with
      | ([], _) => ([], cs)
      | (ds, more) => (e :: sign ++ ds, more)
    else ([], cs)
  | [] => ([], cs)

/-- Reads a number: an integer, or a binary64 number when it has a fraction or an exponent. -/
def readNumber? (cs : List Char) : Option (Data × List Char) :=
  let (negative, cs) :=
    match cs with
    | '-' :: rest => (true, rest)
    | _ => (false, cs)
  let (whole, rest) :=
    match cs with
    | '0' :: rest => (['0'], rest)
    | _ => takeDigits cs
  if whole.isEmpty then none
  else
    let (fraction, rest) := takeFraction rest
    let (exponent, rest) := takeExponent rest
    if fraction.isEmpty && exponent.isEmpty then
      let n : Int := Text.decimalNat whole
      some (.int (if negative then -n else n), rest)
    else
      let sign := if negative then ['-'] else []
      (Double.ofNumeral? (sign ++ whole ++ fraction ++ exponent)).map fun x => (.float x, rest)

/-- Reads a literal word. -/
def readWord? (cs : List Char) : Option (Data × List Char) :=
  let words : List (String × Data) :=
    [("null", .null), ("true", .bool true), ("false", .bool false), ("NaN", .float .nan),
      ("Infinity", .float (.infinite false)), ("-Infinity", .float (.infinite true))]
  words.findSome? fun (word, value) => (Text.after? word.toList cs).map fun rest => (value, rest)

mutual

/-- Reads one value; `fuel` bounds the number of nested readers. -/
def readValue? : Nat → List Char → Option (Data × List Char)
  | 0, _ => none
  | fuel + 1, cs =>
    match skipJsonBlanks cs with
    | '"' :: rest =>
      (Text.readQuotedFrom 0 rest).map fun (body, rest) => (.str (String.ofList body), rest)
    | '[' :: rest =>
      match skipJsonBlanks rest with
      | ']' :: rest => some (.list [], rest)
      | rest => (readItems? fuel rest).map fun (items, rest) => (.list items, rest)
    | '{' :: rest =>
      match skipJsonBlanks rest with
      | '}' :: rest => some (.obj [], rest)
      | rest => (readFields? fuel [] rest).map fun (fields, rest) => (.obj fields, rest)
    | rest => (readWord? rest).orElse fun _ => readNumber? rest

/-- Reads the items of a list up to its closing bracket. -/
def readItems? : Nat → List Char → Option (List Data × List Char)
  | 0, _ => none
  | fuel + 1, cs =>
    match readValue? fuel cs with
    | none => none
    | some (item, rest) =>
      match skipJsonBlanks rest with
      | ']' :: rest => some ([item], rest)
      | ',' :: rest => (readItems? fuel rest).map fun (items, rest) => (item :: items, rest)
      | _ => none

/-- Reads the fields of an object up to its closing brace. -/
def readFields? : Nat → List (String × Data) → List Char →
    Option (List (String × Data) × List Char)
  | 0, _, _ => none
  | fuel + 1, fields, cs =>
    match skipJsonBlanks cs with
    | '"' :: rest =>
      match Text.readQuotedFrom 0 rest with
      | none => none
      | some (name, rest) =>
        match skipJsonBlanks rest with
        | ':' :: rest =>
          match readValue? fuel rest with
          | none => none
          | some (value, rest) =>
            let fields := setField fields (String.ofList name) value
            match skipJsonBlanks rest with
            | '}' :: rest => some (fields, rest)
            | ',' :: rest => readFields? fuel fields rest
            | _ => none
        | _ => none
    | _ => none

end

/-- The data that a JSON document denotes. -/
def ofJson? (text : String) : Option Data :=
  let cs := text.toList
  match readValue? (cs.length + 1) cs with
  | some (value, rest) => if (skipJsonBlanks rest).isEmpty then some value else none
  | none => none

mutual

/-- Compact JSON text, in printable ASCII. -/
def toJson : Data → String
  | .null => "null"
  | .bool true => "true"
  | .bool false => "false"
  | .int n => toString n
  | .float x => x.text
  | .str s => Text.quoteAscii s
  | .list items => "[" ++ ",".intercalate (jsonItems items) ++ "]"
  | .obj fields => "\x7b" ++ ",".intercalate (jsonFields fields) ++ "\x7d"

/-- The texts of the items of a list. -/
def jsonItems : List Data → List String
  | [] => []
  | item :: items => toJson item :: jsonItems items

/-- The texts of the fields of an object. -/
def jsonFields : List (String × Data) → List String
  | [] => []
  | (name, value) :: fields => (Text.quoteAscii name ++ ":" ++ toJson value) :: jsonFields fields

end

end Restyle.Data
