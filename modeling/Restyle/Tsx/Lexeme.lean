import Restyle.Text.Letter
import Restyle.Text.Quoted

/-!
# Lexemes of a module

Readers for the lexical parts of a module.  Each returns how many characters it takes from the front
of a text, or `none`.
-/

namespace Restyle.Tsx

/-- White space between tokens. -/
def isSpace (c : Char) : Bool :=
  let n := c.toNat
  n == 0x20 || (0x09 ≤ n && n ≤ 0x0D) || n == 0xA0 || n == 0x1680 || (0x2000 ≤ n && n ≤ 0x200A) ||
    n == 0x202F || n == 0x205F || n == 0x3000 || n == 0xFEFF || n == 0x2028 || n == 0x2029 ||
    n == 0x2060 || n == 0x200B

/-- Characters that end a line. -/
def isLineEnd (c : Char) : Bool :=
  c == '\n' || c.toNat == 0x2028 || c.toNat == 0x2029

/-- Characters that may continue a name. -/
def isNameChar (c : Char) : Bool :=
  !(c.toNat < 0x20 || isSpace c || ":;\x60\"'@#.,|^&<=>+-*/\\%?!~()[]\x7b\x7d".toList.contains c)

/-- Characters that may start a name. -/
def isNameStart (c : Char) : Bool :=
  isNameChar c && !Text.isAsciiDigit c

/-- The characters of an escape after its backslash. -/
def escapeLength? (cs : List Char) : Option Nat :=
  match cs with
  | [] => none
  | c :: rest =>
    if c == 'x' then
      match rest with
      | a :: b :: _ => if (Text.hexValue? a).isSome && (Text.hexValue? b).isSome then some 3 else none
      | _ => none
    else if c == 'u' then
      match rest with
      | '{' :: more =>
        let n := (more.takeWhile fun d => (Text.hexValue? d).isSome).length
        if n != 0 && (more.drop n).head? == some '}' then some (n + 3) else none
      | _ => if (Text.readUnit? rest).isSome then some 5 else none
    else if '0' ≤ c && c ≤ '7' then
      some (1 + ((rest.take 2).takeWhile fun d => '0' ≤ d && d ≤ '7').length)
    else if c == '\r' then
      match rest with
      | d :: _ => if isLineEnd d then some 2 else some 1
      | [] => some 1
    else some 1

/-- A character of a name that is written by its code; the text starts after the backslash. -/
def nameEscapeLength? (cs : List Char) : Option Nat :=
  match cs with
  | 'u' :: _ => escapeLength? cs
  | _ => none

/--
How many characters at the front continue a name.  `skip` counts the characters of an escape that has
been read already.
-/
def nameTail : Nat → List Char → Nat
  | _, [] => 0
  | skip + 1, _ :: cs => 1 + nameTail skip cs
  | 0, c :: cs =>
    if isNameChar c then 1 + nameTail 0 cs
    else if c == '\\' then
      match nameEscapeLength? cs with
      | some n => 1 + nameTail n cs
      | none => 0
    else 0

/-- A name. -/
def nameLength? (cs : List Char) : Option Nat :=
  match cs with
  | c :: rest =>
    if isNameStart c then some (1 + nameTail 0 rest)
    else if c == '\\' then (nameEscapeLength? rest).map fun n => 1 + nameTail n rest
    else none
  | [] => none

/-- A name after a number sign. -/
def privateNameLength? (cs : List Char) : Option Nat :=
  match cs with
  | '#' :: rest => (nameLength? rest).map (· + 1)
  | _ => none

/-- A name that may hold hyphens, as tags and attributes do. -/
def tagNameLength? (cs : List Char) : Option Nat :=
  match nameLength? cs with
  | none => none
  | some n =>
    match cs.drop n with
    | '-' :: _ =>
      let isTagChar (c : Char) : Bool :=
        Text.isAsciiLetter c || Text.isAsciiDigit c || c == '_' || c == '$' || c == '-'
      some (n + ((cs.drop n).takeWhile isTagChar).length)
    | _ => some n

/-- Digits that may be grouped by single underscores; `isDigit` tells which digits. -/
def groupedDigits (isDigit : Char → Bool) : List Char → Nat
  | [] => 0
  | c :: cs =>
    if isDigit c then 1 + groupedDigits isDigit cs
    else
      match cs with
      | d :: _ => if c == '_' && isDigit d then 1 + groupedDigits isDigit cs else 0
      | [] => 0

/-- A run of digits that starts with a digit. -/
def digitsLength (isDigit : Char → Bool) (cs : List Char) : Nat :=
  match cs with
  | c :: _ => if isDigit c then groupedDigits isDigit cs else 0
  | [] => 0

/-- The exponent of a number. -/
def exponentLength (cs : List Char) : Nat :=
  match cs with
  | e :: rest =>
    if e == 'e' || e == 'E' then
      let signed :=
        match rest with
        | s :: _ => if s == '-' || s == '+' then 1 else 0
        | [] => 0
      let n := digitsLength Text.isAsciiDigit (rest.drop signed)
      if n == 0 then 0 else 1 + signed + n
    else 0
  | [] => 0

/-- A number whose base is given by a letter after a zero. -/
def radixLength? (cs : List Char) : Option Nat :=
  match cs with
  | '0' :: x :: rest =>
    let digits : Option (Char → Bool) :=
      if x == 'x' || x == 'X' then some fun c => (Text.hexValue? c).isSome
      else if x == 'o' || x == 'O' then some fun c => '0' ≤ c && c ≤ '7'
      else if x == 'b' || x == 'B' then some fun c => c == '0' || c == '1'
      else none
    digits.bind fun isDigit =>
      let n := digitsLength isDigit rest
      if n == 0 then none else some (2 + n)
  | _ => none

/-- One more character when the text goes on with the mark of a big integer. -/
def bigMark (cs : List Char) (n : Nat) : Nat :=
  if (cs.drop n).head? == some 'n' then n + 1 else n

/-- Whether digits may be the whole part of a fraction: at most one zero stands before other digits. -/
def isWholePart (digits : List Char) : Bool :=
  match digits with
  | '0' :: rest => rest.head?.all fun d => Text.isAsciiDigit d && d != '0'
  | _ => true

/-- A number. -/
def numberLength? (cs : List Char) : Option Nat :=
  match radixLength? cs with
  | some n => some (bigMark cs n)
  | none =>
    let whole := digitsLength Text.isAsciiDigit cs
    let integer : Option Nat := if whole == 0 then none else some (bigMark cs whole)
    if isWholePart (cs.take whole) then
      match cs.drop whole with
      | '.' :: rest =>
        let fraction := digitsLength Text.isAsciiDigit rest
        if whole == 0 && fraction == 0 then none
        else
          let n := whole + 1 + fraction
          some (n + exponentLength (cs.drop n))
      | rest =>
        let e := exponentLength rest
        if whole == 0 || e == 0 then integer else some (whole + e)
    else integer

/--
The rest of a string after its opening quote, the closing quote included.  `skip` counts the characters
of an escape that has been read already.  A line break must be escaped.
-/
def stringTail? (quote : Char) : Nat → List Char → Option Nat
  | _, [] => none
  | skip + 1, _ :: cs => (stringTail? quote skip cs).map (· + 1)
  | 0, c :: cs =>
    if c == quote then some 1
    else if c == '\\' then
      match escapeLength? cs with
      | some n => (stringTail? quote n cs).map (· + 1)
      | none => none
    else if c == '\n' || c == '\r' then none
    else (stringTail? quote 0 cs).map (· + 1)

/-- A string in single or double quotes. -/
def stringLength? (cs : List Char) : Option Nat :=
  match cs with
  | c :: rest => if c == '"' || c == '\'' then (stringTail? c 0 rest).map (· + 1) else none
  | [] => none

/-- A character reference between tags or in an attribute. -/
def entityLength? (cs : List Char) : Option Nat :=
  match cs with
  | '&' :: rest =>
    let body :=
      match rest with
      | '#' :: x :: more =>
        if x == 'x' || x == 'X' then
          let n := (more.takeWhile fun c => (Text.hexValue? c).isSome).length
          if 1 ≤ n && n ≤ 6 then some (n + 2) else none
        else
          let n := ((x :: more).takeWhile Text.isAsciiDigit).length
          if 1 ≤ n && n ≤ 5 then some (n + 1) else none
      | _ =>
        let n := (rest.takeWhile Text.isAsciiLetter).length
        if 1 ≤ n && n ≤ 30 then some n else none
    body.bind fun n => if (rest.drop n).head? == some ';' then some (n + 2) else none
  | _ => none

/--
The rest of an attribute string after its opening quote.  It has no escapes; an ampersand before a
letter or a number sign must start a character reference, and any other takes its next character along.
-/
def attributeTail? (quote : Char) : Nat → List Char → Option Nat
  | _, [] => none
  | skip + 1, _ :: cs => (attributeTail? quote skip cs).map (· + 1)
  | 0, c :: cs =>
    if c == quote then some 1
    else if c == '&' then
      match cs with
      | d :: _ =>
        if d == '#' || Text.isAsciiLetter d then
          match entityLength? (c :: cs) with
          | some n => (attributeTail? quote (n - 1) cs).map (· + 1)
          | none => none
        else (attributeTail? quote 1 cs).map (· + 1)
      | [] => none
    else (attributeTail? quote 0 cs).map (· + 1)

/-- The string value of an attribute. -/
def attributeStringLength? (cs : List Char) : Option Nat :=
  match cs with
  | c :: rest => if c == '"' || c == '\'' then (attributeTail? c 0 rest).map (· + 1) else none
  | [] => none

/-- The rest of a regular expression after its opening slash, flags not included. -/
def regexTail? (inClass escaped : Bool) : List Char → Option Nat
  | [] => none
  | c :: cs =>
    if c == '\n' then none
    else if escaped then (regexTail? inClass false cs).map (· + 1)
    else if c == '\\' then (regexTail? inClass true cs).map (· + 1)
    else if inClass then (regexTail? (c != ']') false cs).map (· + 1)
    else if c == '[' then (regexTail? true false cs).map (· + 1)
    else if c == '/' then some 1
    else (regexTail? false false cs).map (· + 1)

/-- A regular expression with its flags. -/
def regexLength? (cs : List Char) : Option Nat :=
  match cs with
  | '/' :: rest =>
    match regexTail? false false rest with
    | some n =>
      if n < 2 then none
      else some (1 + n + ((rest.drop n).takeWhile fun c => Text.isAsciiLower c).length)
    | none => none
  | _ => none

/--
Literal text of a template up to its end or its next substitution.  `skip` counts the characters of an
escape that has been read already.
-/
def templateCharsFrom : Nat → List Char → Option Nat
  | _, [] => none
  | skip + 1, _ :: cs => (templateCharsFrom skip cs).map (· + 1)
  | 0, c :: cs =>
    if c == '\x60' || Text.startsWith ['$', '{'] (c :: cs) then some 0
    else if c == '\\' then
      match escapeLength? cs with
      | some n => (templateCharsFrom n cs).map (· + 1)
      | none => none
    else (templateCharsFrom 0 cs).map (· + 1)

/-- Characters that end the text between tags. -/
def endsTagText (c : Char) : Bool :=
  c == '<' || c == '>' || c == '{' || c == '}' || c == '&'

/-- Whether text between tags is more than line breaks with the blanks after them. -/
def hasTagText (afterBreak : Bool) : List Char → Bool
  | [] => false
  | c :: cs =>
    if c == '\n' then hasTagText true cs
    else if afterBreak && isSpace c then hasTagText true cs
    else true

/-- Text between tags. -/
def tagTextLength? (cs : List Char) : Option Nat :=
  let run := cs.takeWhile fun c => !endsTagText c
  if hasTagText false run then some run.length else none

/-- The rest of a block comment after its opening mark. -/
def blockCommentTail? : List Char → Option Nat
  | [] => none
  | c :: cs =>
    if Text.startsWith ['*', '/'] (c :: cs) then some 2 else (blockCommentTail? cs).map (· + 1)

/-- A comment of either form. -/
def commentLength? (cs : List Char) : Option Nat :=
  match cs with
  | '/' :: '/' :: rest => some (2 + (rest.takeWhile fun c => !isLineEnd c && c != '\r').length)
  | '/' :: '*' :: rest => (blockCommentTail? rest).map (· + 2)
  | _ => none

/-- A comment in the form of markup, which reaches to the end of the line. -/
def marginCommentLength? (cs : List Char) : Option Nat :=
  if Text.startsWith "<!--".toList cs || Text.startsWith "-->".toList cs then
    some (cs.takeWhile fun c => !isLineEnd c).length
  else none

/-- The lexical parts that a pattern may ask for. -/
inductive Lexeme where
  | privateName
  | tagName
  | number
  | string
  | attributeString
  | regex
  | templateChars
  | tagText
  | entity
  | marginComment
  deriving DecidableEq, Repr

/-- How many characters a lexical part takes. -/
def Lexeme.length? : Lexeme → List Char → Option Nat
  | .privateName => privateNameLength?
  | .tagName => tagNameLength?
  | .number => numberLength?
  | .string => stringLength?
  | .attributeString => attributeStringLength?
  | .regex => regexLength?
  | .templateChars => templateCharsFrom 0
  | .tagText => tagTextLength?
  | .entity => entityLength?
  | .marginComment => marginCommentLength?

end Restyle.Tsx
