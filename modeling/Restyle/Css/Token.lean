import Restyle.Text.Blank
import Restyle.Text.Search

/-!
# Style sheet tokens

Only the block structure of a style sheet is tokenized: braces, semicolons, comments and runs of
text.  A run of text keeps quoted strings and groups in parentheses together, so a brace or a
semicolon inside them ends nothing.  Offsets count characters.
-/

namespace Restyle.Css

/-- What kind of token a piece of a style sheet is. -/
inductive TokenKind where
  | lbrace
  | rbrace
  | semicolon
  | comment
  | text
  deriving DecidableEq, Repr

/-- A token with its text and the offset of its first character. -/
structure Token where
  kind : TokenKind
  value : String
  offset : Nat
  deriving DecidableEq, Repr

/-- Why a text is not a style sheet. -/
inductive SyntaxFault where
  | unterminatedComment (offset : Nat)
  | unterminatedString (offset : Nat)
  | unbalancedParenthesis (offset : Nat)
  | unexpectedClose (offset : Nat)
  | missingSelector (offset : Nat)
  | unclosedBlock (selector : String)
  deriving DecidableEq, Repr

/-- The text of a fault. -/
def SyntaxFault.message : SyntaxFault → String
  | .unterminatedComment _ => "Unterminated comment"
  | .unterminatedString _ => "Unterminated string"
  | .unbalancedParenthesis _ => "Unbalanced parenthesis"
  | .unexpectedClose _ => "Unexpected '\x7d'"
  | .missingSelector _ => "Block without selector"
  | .unclosedBlock selector => "Unclosed block '" ++ selector ++ "'"

/-- The offset of the token that is at fault; a block left open has none. -/
def SyntaxFault.offset? : SyntaxFault → Option Nat
  | .unterminatedComment offset => some offset
  | .unterminatedString offset => some offset
  | .unbalancedParenthesis offset => some offset
  | .unexpectedClose offset => some offset
  | .missingSelector offset => some offset
  | .unclosedBlock _ => none

/-- Where the reader of a text run stands: inside a string, after a backslash in it, or outside. -/
inductive RunState where
  | plain
  | quoted (quote : Char)
  | escaped (quote : Char)
  deriving DecidableEq, Repr

/-- How a text run may fail to end. -/
inductive RunFault where
  | openString
  | openParenthesis
  deriving DecidableEq, Repr

/-- Whether a text run ends before the text `cs`, which `last` precedes. -/
def endsRun (last : Char) (cs : List Char) : Bool :=
  match cs with
  | [] => true
  | c :: _ =>
    c == '{' || c == '}' || c == ';' || Text.startsWith ['/', '*'] cs ||
      (Text.startsWith ['/', '/'] cs && Text.isBlank last)

/--
The number of characters a text run takes from `cs`, where `last` is the character before them and
`depth` the number of open parentheses.
-/
def runLength (state : RunState) (depth : Nat) (last : Char) : List Char → Except RunFault Nat
  | [] =>
    match state with
    | .plain => if depth == 0 then .ok 0 else .error .openParenthesis
    | _ => .error .openString
  | c :: cs =>
    match state with
    | .escaped q => (runLength (.quoted q) depth c cs).map (· + 1)
    | .quoted q =>
      if c == '\\' then (runLength (.escaped q) depth c cs).map (· + 1)
      else if c == q then (runLength .plain depth c cs).map (· + 1)
      else (runLength (.quoted q) depth c cs).map (· + 1)
    | .plain =>
      if depth == 0 && endsRun last (c :: cs) then .ok 0
      else if c == '"' || c == '\'' then (runLength (.quoted c) depth c cs).map (· + 1)
      else if c == '(' then (runLength .plain (depth + 1) c cs).map (· + 1)
      else if c == ')' then (runLength .plain (depth - 1) c cs).map (· + 1)
      else (runLength .plain depth c cs).map (· + 1)

/-- The number of characters a text run takes after its first character `c`. -/
def runTail (c : Char) (cs : List Char) : Except RunFault Nat :=
  if c == '"' || c == '\'' then runLength (.quoted c) 0 c cs
  else if c == '(' then runLength .plain 1 c cs
  else runLength .plain 0 c cs

/-- The length of a comment body up to and including its closing mark. -/
def commentTail? : List Char → Option Nat
  | [] => none
  | c :: cs => if Text.startsWith ['*', '/'] (c :: cs) then some 2 else (commentTail? cs).map (· + 1)

/-- The length of the rest of a line. -/
def lineTail (cs : List Char) : Nat :=
  (cs.takeWhile (· != '\n')).length

/-- The token that starts at `c`, and how many characters it takes after `c`. -/
def tokenAt (offset : Nat) (c : Char) (cs : List Char) : Except SyntaxFault (Token × Nat) :=
  let long (kind : TokenKind) (n : Nat) : Token × Nat :=
    (⟨kind, String.ofList (c :: cs.take n), offset⟩, n)
  if c == '/' && Text.startsWith ['*'] cs then
    match commentTail? (cs.drop 1) with
    | some n => .ok (long .comment (n + 1))
    | none => .error (.unterminatedComment offset)
  else if c == '/' && Text.startsWith ['/'] cs then .ok (long .comment (lineTail cs))
  else if c == '{' then .ok (long .lbrace 0)
  else if c == '}' then .ok (long .rbrace 0)
  else if c == ';' then .ok (long .semicolon 0)
  else
    match runTail c cs with
    | .ok n => .ok (⟨.text, String.ofList (Text.trim (c :: cs.take n)), offset⟩, n)
    | .error .openString => .error (.unterminatedString offset)
    | .error .openParenthesis => .error (.unbalancedParenthesis offset)

/-- The tokens of a text whose first character has the given offset. -/
def tokensFrom (offset : Nat) (cs : List Char) : Except SyntaxFault (List Token) :=
  match cs with
  | [] => .ok []
  | c :: rest =>
    if Text.isBlank c then tokensFrom (offset + 1) rest
    else
      match tokenAt offset c rest with
      | .error fault => .error fault
      | .ok (token, n) => (tokensFrom (offset + n + 1) (rest.drop n)).map (token :: ·)
termination_by cs.length
decreasing_by
  all_goals simp only [List.length_cons, List.length_drop]
  all_goals omega

/-- The tokens of a style sheet, comments included and blanks left out. -/
def tokenize (text : String) : Except SyntaxFault (List Token) :=
  tokensFrom 0 text.toList

end Restyle.Css
