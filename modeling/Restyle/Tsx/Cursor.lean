import Restyle.Tsx.Ending
import Restyle.Tsx.Node

/-!
# Reading positions

A cursor is a position in the text of a module, counted in bytes for the tree and in characters for
cutting out texts.  Between tokens it may skip white space and comments.  It also knows whether the
statement around it may end where it stands.
-/

namespace Restyle.Tsx

/-- A position in a module. -/
structure Cursor where
  rest : List Char
  pos : Nat := 0
  count : Nat := 0
  /-- Whether result types of arrow functions are forbidden. -/
  plainArrows : Bool := false
  /-- Whether an expression ends here. -/
  afterValue : Bool := false
  /-- Set where a semicolon may be left out, and then tells whether an expression precedes it. -/
  ending : Option Bool := none

namespace Cursor

/-- The number of bytes that characters take. -/
def byteSize (cs : List Char) : Nat :=
  cs.foldl (fun n c => n + c.utf8Size) 0

/-- The position `n` characters further on. -/
def advance (c : Cursor) (n : Nat) : Cursor :=
  { c with
    rest := c.rest.drop n
    pos := c.pos + byteSize (c.rest.take n)
    count := c.count + n
    afterValue := c.afterValue && n == 0 }

/-- The text between two positions. -/
def textTo (c stop : Cursor) : String :=
  String.ofList (c.rest.take (stop.count - c.count))

/-- A node without children over the next `n` characters. -/
def leaf (c : Cursor) (kind : Kind) (n : Nat) : Node :=
  let taken := c.rest.take n
  { kind, start := c.pos, stop := c.pos + byteSize taken, text := String.ofList taken }

/-- A node between two positions. -/
def nodeTo (c stop : Cursor) (kind : Kind) (children : List Node) : Node :=
  { kind, start := c.pos, stop := stop.pos, text := c.textTo stop, children }

theorem rest_advance (c : Cursor) (n : Nat) : (c.advance n).rest = c.rest.drop n := rfl

/-- Skips white space. -/
def skipSpaces (c : Cursor) : Cursor :=
  match c.rest with
  | [] => c
  | ch :: _ => if isSpace ch then c.advance (c.rest.takeWhile isSpace).length else c

theorem length_rest_skipSpaces_le (c : Cursor) : c.skipSpaces.rest.length ≤ c.rest.length := by
  unfold skipSpaces
  split
  · exact Nat.le_refl _
  · split
    · simp [rest_advance]
    · exact Nat.le_refl _

/-- Skips white space and comments, and returns the comments. -/
def skip (c : Cursor) : List Node × Cursor :=
  let c' := c.skipSpaces
  match _h : c'.rest, commentLength? c'.rest with
  | _ :: _, some (n + 1) =>
    let (comments, stop) := skip (c'.advance (n + 1))
    (c'.leaf .comment (n + 1) :: comments, stop)
  | _, _ => ([], c')
termination_by c.rest.length
decreasing_by
  have hle := length_rest_skipSpaces_le c
  have hpos : 0 < c.skipSpaces.rest.length := by
    rw [_h]
    exact Nat.succ_pos _
  simp only [rest_advance, List.length_drop]
  omega

/-- Whether the statement around the position ends here because its semicolon is left out. -/
def isOver (c : Cursor) : Bool :=
  c.ending.any fun afterValue => endsHere afterValue c.rest

end Cursor

end Restyle.Tsx
