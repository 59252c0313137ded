import Restyle.Text.Search

/-!
# Quoted text

A text between double quotes, with backslash escapes: quotes and backslashes are written with a
backslash, the usual controls by letter and the other controls by four hexadecimal digits.  Two
writers differ only in whether characters outside ASCII are escaped too.  Beside them stands the
reader, which also takes the escapes the writers never produce.  An escape may denote half of a
surrogate pair, which is no character; the reader puts a replacement character in its place.
-/

namespace Restyle.Text

/-- One hexadecimal digit. -/
def hexDigit (n : Nat) : Char :=
  if n < 10 then Char.ofNat (48 + n) else Char.ofNat (87 + n)

/-- The value of a hexadecimal digit. -/
def hexValue? (c : Char) : Option Nat :=
  if '0' ≤ c && c ≤ '9' then some (c.toNat - 48)
  else if 'a' ≤ c && c ≤ 'f' then some (c.toNat - 87)
  else if 'A' ≤ c && c ≤ 'F' then some (c.toNat - 55)
  else none

/-- An escape of four hexadecimal digits. -/
def unitEscape (n : Nat) : List Char :=
  ['\\', 'u', hexDigit (n / 4096 % 16), hexDigit (n / 256 % 16), hexDigit (n / 16 % 16),
    hexDigit (n % 16)]

/-- The short escape of a quote, a backslash or a control with a letter of its own. -/
def shortEscape? (c : Char) : Option Char :=
  match c with
  | '"' => some '"'
  | '\\' => some '\\'
  | '\n' => some 'n'
  | '\r' => some 'r'
  | '\t' => some 't'
  | '\x08' => some 'b'
  | '\x0c' => some 'f'
  | _ => none

/-- A character as it stands inside quotes, with everything beyond ASCII left alone. -/
def escapeChar (c : Char) : List Char :=
  match shortEscape? c with
  | some e => ['\\', e]
  | none => if c.toNat < 32 then unitEscape c.toNat else [c]

/-- A character as it stands inside quotes, in printable ASCII only. -/
def escapeAscii (c : Char) : List Char :=
  match shortEscape? c with
  | some e => ['\\', e]
  | none =>
    let n := c.toNat
    if 32 ≤ n && n < 127 then [c]
    else if n < 0x10000 then unitEscape n
    else unitEscape (0xD800 + (n - 0x10000) / 1024) ++ unitEscape (0xDC00 + (n - 0x10000) % 1024)

/-- A string in double quotes, characters beyond ASCII left alone. -/
def quote (s : String) : String :=
  String.ofList ('"' :: s.toList.flatMap escapeChar ++ ['"'])

/-- A string in double quotes, written in printable ASCII. -/
def quoteAscii (s : String) : String :=
  String.ofList ('"' :: s.toList.flatMap escapeAscii ++ ['"'])

/-- The unit that four hexadecimal digits denote, and what follows them. -/
def readUnit? : List Char → Option (Nat × List Char)
  | a :: b :: c :: d :: rest => do
    let a ← hexValue? a
    let b ← hexValue? b
    let c ← hexValue? c
    let d ← hexValue? d
    return (((a * 16 + b) * 16 + c) * 16 + d, rest)
  | _ => none

/-- The second half of a surrogate pair, when the text continues with one. -/
def lowSurrogate? (cs : List Char) : Option (Nat × Nat) := do
  let rest ← after? ['\\', 'u'] cs
  let (low, _) ← readUnit? rest
  if 0xDC00 ≤ low && low ≤ 0xDFFF then some (low, 6) else none

/--
The character of an escape by hexadecimal digits, and how many characters follow the backslash.  Half
of a surrogate pair without the other half is no character.
-/
def readUnitEscape? (cs : List Char) : Option (Option Char × Nat) := do
  let (unit, rest) ← readUnit? cs
  if 0xD800 ≤ unit && unit ≤ 0xDBFF then
    match lowSurrogate? rest with
    | some (low, size) =>
      some (some (Char.ofNat (0x10000 + (unit - 0xD800) * 1024 + (low - 0xDC00))), 5 + size)
    | none => some (none, 5)
  else if 0xDC00 ≤ unit && unit ≤ 0xDFFF then some (none, 5)
  else some (some (Char.ofNat unit), 5)

/--
The character of one backslash escape and how many characters follow the backslash.  No text holds half of a
surrogate pair, so the replacement character stands for it.
-/
def readEscape? : List Char → Option (Char × Nat)
  | [] => none
  | c :: cs =>
    match c with
    | '"' => some ('"', 1)
    | '\\' => some ('\\', 1)
    | '/' => some ('/', 1)
    | 'n' => some ('\n', 1)
    | 'r' => some ('\r', 1)
    | 't' => some ('\t', 1)
    | 'b' => some ('\x08', 1)
    | 'f' => some ('\x0c', 1)
    | 'u' => (readUnitEscape? cs).map fun (c?, size) => (c?.getD (Char.ofNat 0xFFFD), size)
    | _ => none

/--
Reads up to the closing quote.  `skip` counts the characters of an escape that has been read
already.  Bare controls are refused, and so is a text without a closing quote.
-/
def readQuotedFrom : Nat → List Char → Option (List Char × List Char)
  | _, [] => none
  | skip + 1, _ :: cs => readQuotedFrom skip cs
  | 0, c :: cs =>
    if c == '"' then some ([], cs)
    else if c == '\\' then
      match readEscape? cs with
      | some (e, size) => (readQuotedFrom size cs).map fun (body, rest) => (e :: body, rest)
      | none => none
    else if c.toNat < 32 then none
    else (readQuotedFrom 0 cs).map fun (body, rest) => (c :: body, rest)

/-- The text that a whole string in double quotes denotes. -/
def unquote? (cs : List Char) : Option (List Char) :=
  match cs with
  | '"' :: rest =>
    match readQuotedFrom 0 rest with
    | some (body, []) => some body
    | _ => none
  | _ => none

end Restyle.Text
