import Restyle.Decimal.Shortest
import Restyle.Style.Value
import Restyle.Text.Letter

/-!
# Rendering style values

Style values are emitted as object literals with two spaces of indentation a level and a comma after
every entry.  A static block has no literal form: rendering it is an error.  A second printer spells a
value inside running text.
-/

namespace Restyle.Style

/-- A static block stands where only a value can be rendered. -/
inductive RenderFault where
  | blockValue
  deriving DecidableEq, Repr

/-- Whether a character may start an identifier of the emitted code. -/
def isIdentifierStart (c : Char) : Bool :=
  Text.isAsciiLetter c || c == '_' || c == '$'

/-- Whether a character may continue an identifier of the emitted code. -/
def isIdentifierChar (c : Char) : Bool :=
  isIdentifierStart c || Text.isAsciiDigit c

/-- Whether a list of characters is an identifier. -/
def isIdentifierChars : List Char → Bool
  | [] => false
  | c :: cs => isIdentifierStart c && cs.all isIdentifierChar

/-- Whether a name can be written without quotes; a single final line break is overlooked. -/
def isIdentifier (s : String) : Bool :=
  let cs := s.toList
  isIdentifierChars cs ||
    (cs.getLast? == some '\n' && isIdentifierChars cs.dropLast)

/-- The text of a key in an object literal. -/
def renderKey : Key → String
  | .computed code => "[" ++ code ++ "]"
  | .name s => if isIdentifier s then s else Text.quote s

/-- The text of a binary64 number; a whole one is written as an integer. -/
def renderDouble (x : Double) : String :=
  match x.toInt? with
  | some n => toString n
  | none => x.text

/-- Two spaces for each level of indentation. -/
def indentation (level : Nat) : String :=
  String.ofList (List.replicate (2 * level) ' ')

mutual

/-- The text of a value at a level of indentation. -/
def renderValue (level : Nat) : Value → Except RenderFault String
  | .null => .ok "null"
  | .bool true => .ok "true"
  | .bool false => .ok "false"
  | .int n => .ok (toString n)
  | .float x => .ok (renderDouble x)
  | .text s => .ok (Text.quote s)
  | .js code => .ok code
  | .block _ => .error .blockValue
  | .list items => do
    let texts ← renderItems level items
    return "[" ++ ", ".intercalate texts ++ "]"
  | .obj [] => .ok "\x7b\x7d"
  | .obj (entry :: entries) => do
    let lines ← renderEntries (level + 1) (entry :: entries)
    return "\n".intercalate (["\x7b"] ++ lines ++ [indentation level ++ "\x7d"])

/-- The texts of the items of a list. -/
def renderItems (level : Nat) : List Value → Except RenderFault (List String)
  | [] => .ok []
  | item :: items => do
    let text ← renderValue level item
    let texts ← renderItems level items
    return text :: texts

/-- The lines of the entries of an object. -/
def renderEntries (level : Nat) : List (Key × Value) → Except RenderFault (List String)
  | [] => .ok []
  | (key, value) :: entries => do
    let text ← renderValue level value
    let lines ← renderEntries level entries
    return (indentation level ++ renderKey key ++ ": " ++ text ++ ",") :: lines

end

/-- The text of an object at a level of indentation. -/
def renderObject (level : Nat) (o : Object) : Except RenderFault String :=
  renderValue level (.obj o)

/-- A text in the quotes it does not contain, single ones by preference. -/
def spelledQuoted (s : String) : String :=
  let cs := s.toList
  let q := if cs.contains '\'' && !cs.contains '"' then '"' else '\''
  let spell (c : Char) : List Char :=
    if c == q || c == '\\' then ['\\', c]
    else if c == '\n' then ['\\', 'n']
    else if c == '\r' then ['\\', 'r']
    else if c == '\t' then ['\\', 't']
    else if c.toNat < 32 || (127 ≤ c.toNat && c.toNat < 161) || c.toNat == 173 then
      ['\\', 'x', Text.hexDigit (c.toNat / 16 % 16), Text.hexDigit (c.toNat % 16)]
    else [c]
  String.ofList (q :: cs.flatMap spell ++ [q])

/-- The spelling of a key inside an object. -/
def spelledKey : Key → String
  | .name s => spelledQuoted s
  | .computed code => "ComputedKey(code=" ++ spelledQuoted code ++ ")"

mutual

/-- The spelling of a value inside a list or an object. -/
def spelledInside : Value → String
  | .null => "None"
  | .bool true => "True"
  | .bool false => "False"
  | .int n => toString n
  | .float x => x.text
  | .text s => spelledQuoted s
  | .js code => "JsExpr(code=" ++ spelledQuoted code ++ ")"
  | .block css => "CssBlock(text=" ++ spelledQuoted css ++ ")"
  | .list items => "[" ++ ", ".intercalate (spelledItems items) ++ "]"
  | .obj entries => "\x7b" ++ ", ".intercalate (spelledEntries entries) ++ "\x7d"

/-- The spellings of the items of a list. -/
def spelledItems : List Value → List String
  | [] => []
  | item :: items => spelledInside item :: spelledItems items

/-- The spellings of the entries of an object. -/
def spelledEntries : List (Key × Value) → List String
  | [] => []
  | (key, value) :: entries =>
    (spelledKey key ++ ": " ++ spelledInside value) :: spelledEntries entries

end

/-- The spelling of a value inside running text: texts and expressions stand as they are. -/
def spelled : Value → String
  | .text s => s
  | .js code => code
  | v => spelledInside v

end Restyle.Style
