import Restyle.Tsx.Grammar
import Restyle.Text.Blank

/-!
# Modules and single expressions

A module is a list of statements.  A statement that cannot be read makes the module faulty; reading goes
on in the next line, so that the statements around it can still be inspected.  A single expression is
read as a parenthesized statement of a module of its own.
-/

namespace Restyle.Tsx

/-- The tree of a module. -/
structure Source where
  root : Node
  hasErrors : Bool

/-- The fuel that suffices for a text: every level of nesting takes at least one character. -/
def readingFuel (cs : List Char) : Nat := 200 * (cs.length + 10)

/-- Reads one statement. -/
def readStatement (fuel : Nat) : Reader :=
  (Pattern.rule Rule.statement).read Rule.form fuel

/-- The cursor after the end of the line. -/
def Cursor.nextLine (c : Cursor) : Cursor :=
  c.advance ((c.rest.takeWhile fun ch => !isLineEnd ch).length + 1)

/-- Reads statements to the end; tells whether some could not be read. -/
def readStatements (depth : Nat) : Nat → Cursor → List Node × Bool × Cursor
  | 0, c => ([], true, c)
  | fuel + 1, c =>
    match readStatement depth c with
    | some (nodes, c') =>
      let (more, failed, stop) := readStatements depth fuel c'
      (nodes ++ more, failed, stop)
    | none =>
      let (comments, c') := c.skip
      if c'.rest.isEmpty then (comments, false, c')
      else
        let (more, _, stop) := readStatements depth fuel c'.nextLine
        (comments ++ more, true, stop)

/-- The first line of a module that names the program to run it with. -/
def readProgramLine (c : Cursor) : List Node × Cursor :=
  if Text.startsWith ['#', '!'] c.rest then
    let n := (c.rest.takeWhile fun ch => !isLineEnd ch && ch != '\r').length
    ([c.leaf .construct n], c.advance n)
  else ([], c)

/-- Reads a module. -/
def Source.read (text : String) : Source :=
  let cs := text.toList
  let start : Cursor := { rest := cs }
  let (line, body) := readProgramLine start
  let (nodes, hasErrors, stop) := readStatements (readingFuel cs) (cs.length + 1) body
  { root := start.nodeTo stop .program (line ++ nodes), hasErrors }

/-- Why a text is no expression. -/
inductive ExpressionFault where
  | empty
  | invalid (text : String)
  deriving DecidableEq, Repr

/-- The message of a fault. -/
def ExpressionFault.message : ExpressionFault → String
  | .empty => "Empty expression"
  | .invalid text => "Invalid expression: " ++ text

/-- Reads a single expression. -/
def readExpression (text : String) : Except ExpressionFault Node :=
  if (Text.strip text).isEmpty then .error .empty
  else
    let source := Source.read ("(" ++ text ++ "\n);")
    match source.hasErrors, source.root.named with
    | false, [statement] =>
      match statement.kind, statement.named with
      | .expressionStatement, outer :: _ =>
        match outer.kind, outer.named with
        | .parenthesized, [inner] => .ok inner
        | _, _ => .error (.invalid text)
      | _, _ => .error (.invalid text)
    | _, _ => .error (.invalid text)

/-- Whether a text is a single expression. -/
def isExpression (text : String) : Bool :=
  (readExpression text).toBool

end Restyle.Tsx
