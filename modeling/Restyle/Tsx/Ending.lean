import Restyle.Tsx.Lexeme

/-!
# Where a statement ends

A semicolon may be left out at the end of the text, before a closing brace, and before a new line
that does not go on with what came before.  Whether a line goes on depends on its first token, and
for brackets also on whether an expression stands before the line.
-/

namespace Restyle.Tsx

/-- What a run of blanks and comments amounts to. -/
inductive Gap where
  /-- A slash that starts no comment. -/
  | slash
  /-- A block comment on one line. -/
  | inLine
  | passed

/-- Passes blanks and comments.  Unless `through` is set, a block comment ends the run. -/
def passGap (through : Bool) (cs : List Char) : Gap × List Char :=
  match _h : cs.dropWhile isSpace with
  | '/' :: '/' :: rest => passGap through (rest.dropWhile fun c => !isLineEnd c)
  | '/' :: '*' :: rest =>
    match blockCommentTail? rest with
    | none => (.passed, [])
    | some n =>
      let after := rest.drop n
      if !through && after.head? != some '/' then
        (if (rest.take n).any isLineEnd then .passed else .inLine, after)
      else passGap through after
  | '/' :: rest => (.slash, rest)
  | rest => (.passed, rest)
termination_by cs.length
decreasing_by
  all_goals
    have hle := (List.dropWhile_sublist isSpace (l := cs)).length_le
    rw [_h] at hle
    simp only [List.length_cons] at hle
  · have hline := (List.dropWhile_sublist (fun c => !isLineEnd c) (l := rest)).length_le
    omega
  · simp only [List.length_drop]
    omega

/-- Whether a text starts with an operator that is a word. -/
def startsWithWordOperator (cs : List Char) : Bool :=
  ["in", "instanceof"].any fun word =>
    (Text.after? word.toList cs).any fun rest => !rest.head?.any Text.isLetter

/-- Whether a statement may end before a new line that starts with the given text. -/
def endsBeforeLine (afterValue : Bool) (cs : List Char) : Bool :=
  match passGap true cs with
  | (.slash, _) => false
  | (_, []) => true
  | (_, c :: rest) =>
    if "\x60,.;*%><=?^|&/:".toList.contains c then false
    else if c == '(' || c == '[' then !afterValue
    else if c == '+' || c == '-' then rest.head? == some c
    else if c == '!' then rest.head? != some '='
    else !startsWithWordOperator (c :: rest)

/--
Whether a semicolon may be left out before a text.  The fuel must exceed the number of comments at
its start.
-/
def semicolonLeftOutFrom (afterValue : Bool) : Nat → List Char → Bool
  | 0, _ => false
  | fuel + 1, cs =>
    match cs.dropWhile fun c => isSpace c && !isLineEnd c with
    | [] => true
    | c :: rest =>
      if c == '/' then
        match passGap false (c :: rest) with
        | (.slash, _) | (_, []) => false
        | (.passed, d :: more) =>
          (!afterValue && d != ',' && d != '=') || semicolonLeftOutFrom afterValue fuel (d :: more)
        | (.inLine, more) => semicolonLeftOutFrom afterValue fuel more
      else c == '}' || (isLineEnd c && endsBeforeLine afterValue rest)

/-- Whether a semicolon may be left out before a text; `afterValue` tells that a value precedes. -/
def semicolonLeftOut (afterValue : Bool) (cs : List Char) : Bool :=
  let next := cs.dropWhile fun c => isSpace c && !isLineEnd c
  let comments := if next.head? == some '/' then next.length else 0
  semicolonLeftOutFrom afterValue (comments + 1) next

/-- Whether a semicolon may be left out before a text or after some of the comments at its start. -/
def endsHere (afterValue : Bool) (cs : List Char) : Bool :=
  semicolonLeftOut afterValue cs ||
    match _h : cs.dropWhile isSpace with
    | [] => false
    | c :: rest =>
      match commentLength? (c :: rest) with
      | some (n + 1) => endsHere afterValue (rest.drop n)
      | _ => false
termination_by cs.length
decreasing_by
  have hle := (List.dropWhile_sublist isSpace (l := cs)).length_le
  rw [_h] at hle
  simp only [List.length_cons] at hle
  simp only [List.length_drop]
  omega

end Restyle.Tsx
