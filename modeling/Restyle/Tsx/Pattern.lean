import Restyle.Tsx.Cursor

/-!
# Patterns

A grammar is a table of patterns.  A pattern is read at a cursor and either fails or yields the
nodes it makes together with the cursor after them.  Choices are ordered, so the first choice that
fits is taken.  Between tokens white space is skipped, and comments become nodes that stand before
the outermost node that starts after them.
-/

namespace Restyle.Tsx

/--
A way to grow what has been read into a larger node.  What has been read must be of one of the
accepted kinds, if any are given, and plays the given part in the new node.
-/
structure Growth (π : Type) where
  kind : Kind
  accepts : List Kind := []
  role : Option Role := none
  /-- What is read for the rest of the node. -/
  rest : π

/-- A growth with another form of its rest. -/
def Growth.map {π σ : Type} (f : π → σ) (g : Growth π) : Growth σ :=
  { kind := g.kind, accepts := g.accepts, role := g.role, rest := f g.rest }

/-- Patterns over named rules. -/
inductive Pattern (ρ : Type) where
  /-- A whole word; a kept word becomes a token node. -/
  | word (text : String) (kept : Bool)
  /-- A sign that none of the given texts follows. -/
  | sign (text : String) (except : List String) (kept : Bool)
  /-- A sign that follows at once. -/
  | joined (text : String)
  /-- A lexical part. -/
  | lexeme (kind : Kind) (part : Lexeme)
  /-- A lexical part that follows at once. -/
  | joinedLexeme (kind : Kind) (part : Lexeme)
  /-- A name other than the given ones. -/
  | name (kind : Kind) (except : List String)
  | rule (r : ρ)
  | seq (parts : List (Pattern ρ))
  | alt (choices : List (Pattern ρ))
  | many (p : Pattern ρ)
  | maybe (p : Pattern ρ)
  /-- The pattern fits here; nothing is read. -/
  | ahead (p : Pattern ρ)
  /-- The pattern does not fit here; nothing is read. -/
  | lacks (p : Pattern ρ)
  | node (kind : Kind) (p : Pattern ρ)
  | role (r : Role) (p : Pattern ρ)
  /-- The pattern fits and its last node is of one of the given kinds. -/
  | ofKind (kinds : List Kind) (p : Pattern ρ)
  /-- A base that grows as long as one of the growths fits and the statement is not over. -/
  | chain (base : Pattern ρ) (growths : List (Growth (Pattern ρ)))
  /-- The statement is not over here; nothing is read. -/
  | goesOn
  /-- The end of a statement: a semicolon, or a place where one may be left out. -/
  | semicolon
  /-- The last part of a statement, which may lack its semicolon; `value` tells an expression. -/
  | last (value : Bool) (p : Pattern ρ)
  /-- What stands in brackets: no statement ends in them, and arrows may have result types. -/
  | closed (p : Pattern ρ)
  /-- Forbids result types of arrow functions. -/
  | plainArrows (p : Pattern ρ)
  /-- Fails where result types of arrow functions are forbidden. -/
  | arrowTypes

/-- A reader yields nodes and the cursor after them. -/
abbrev Reader := Cursor → Option (List Node × Cursor)

namespace Reader

/-- A token with a given length after blanks and comments. -/
def token (length? : List Char → Option Nat) (kind : Option Kind) : Reader := fun c =>
  let (comments, c') := c.skip
  (length? c'.rest).map fun n =>
    (comments ++ (kind.map fun k => c'.leaf k n).toList, c'.advance n)

/-- The length of a given word. -/
def wordLength? (text : String) (cs : List Char) : Option Nat :=
  (nameLength? cs).filter fun n => cs.take n == text.toList

/-- The length of a given sign. -/
def signLength? (text : String) (except : List String) (cs : List Char) : Option Nat :=
  (Text.after? text.toList cs).bind fun rest =>
    if except.any fun e => Text.startsWith e.toList rest then none else some text.length

/-- The length of a name other than the given ones. -/
def nameLengthExcept? (except : List String) (cs : List Char) : Option Nat :=
  (nameLength? cs).filter fun n => !except.contains (String.ofList (cs.take n))

/-- Reads one after the other. -/
def sequence : List Reader → Reader
  | [], c => some ([], c)
  | r :: rs, c => do
    let (before, c') ← r c
    let (after, c'') ← sequence rs c'
    return (before ++ after, c'')

/-- Takes the first reader that fits. -/
def firstOf : List Reader → Reader
  | [], _ => none
  | r :: rs, c =>
    match r c with
    | some result => some result
    | none => firstOf rs c

/-- Reads as often as possible; a reading without progress is the last. -/
def repeated (r : Reader) : Nat → Reader
  | 0, c => some ([], c)
  | n + 1, c =>
    match r c with
    | none => some ([], c)
    | some (nodes, c') =>
      if c'.count == c.count then some (nodes, c')
      else
        match repeated r n c' with
        | some (more, c'') => some (nodes ++ more, c'')
        | none => some (nodes, c')

/-- Gives nodes other than comments a part to play. -/
def withRole (role : Role) (nodes : List Node) : List Node :=
  nodes.map fun n => if n.kind == .comment then n else { n with role := some role }

/-- The kind of the last node that is no comment. -/
def lastKind? (nodes : List Node) : Option Kind :=
  (nodes.reverse.find? fun n => n.kind != .comment).map Node.kind

/-- The first growth that fits. -/
def growthOf (start : Cursor) (nodes : List Node) (c : Cursor) :
    List (Growth Reader) → Option (List Node × Cursor)
  | [] => none
  | g :: growths =>
    if g.accepts.isEmpty || (lastKind? nodes).any g.accepts.contains then
      match g.rest c with
      | some (more, c') =>
        let inner := match g.role with
          | some role => withRole role nodes
          | none => nodes
        some ([start.nodeTo c' g.kind (inner ++ more)], c')
      | none => growthOf start nodes c growths
    else growthOf start nodes c growths

/-- Grows nodes as long as a growth fits and the statement is not over. -/
def grow (growths : List (Growth Reader)) (start : Cursor) :
    Nat → List Node → Cursor → List Node × Cursor
  | 0, nodes, c => (nodes, c)
  | n + 1, nodes, c =>
    if c.isOver then (nodes, c)
    else
      match growthOf start nodes c growths with
      | some (nodes', c') => grow growths start n nodes' c'
      | none => (nodes, c)

/-- Reads a node; comments before it stay outside. -/
def node (kind : Kind) (r : Reader) : Reader := fun c =>
  let (comments, start) := c.skip
  (r start).map fun (nodes, c') => (comments ++ [start.nodeTo c' kind nodes], c')

/-- Reads the end of a statement; comments before it belong to the statement. -/
def semicolon (afterValue : Bool) : Nat → Reader
  | 0, _ => none
  | fuel + 1, c =>
    if semicolonLeftOut afterValue c.rest then some ([], c)
    else
      let c' := c.skipSpaces
      match c'.rest with
      | ';' :: _ => some ([], c'.advance 1)
      | rest =>
        (commentLength? rest).bind fun n =>
          (semicolon afterValue fuel (c'.advance n)).map fun (nodes, stop) =>
            (c'.leaf .comment n :: nodes, stop)

end Reader

namespace Pattern

variable {ρ : Type}

/-- Reads a pattern.  The fuel bounds the depth of patterns inside each other. -/
def read (grammar : ρ → Pattern ρ) : Nat → Pattern ρ → Reader
  | 0, _ => fun _ => none
  | fuel + 1, p => fun c =>
    match p with
    | .word text kept =>
      Reader.token (Reader.wordLength? text) (if kept then some .token else none) c
    | .sign text except kept =>
      Reader.token (Reader.signLength? text except) (if kept then some .token else none) c
    | .joined text => (Reader.signLength? text [] c.rest).map fun n => ([], c.advance n)
    | .lexeme kind part => Reader.token part.length? (some kind) c
    | .joinedLexeme kind part =>
      (part.length? c.rest).map fun n => ([c.leaf kind n], c.advance n)
    | .name kind except => Reader.token (Reader.nameLengthExcept? except) (some kind) c
    | .rule r => read grammar fuel (grammar r) c
    | .seq parts => Reader.sequence (parts.map (read grammar fuel)) c
    | .alt choices => Reader.firstOf (choices.map (read grammar fuel)) c
    | .many p => Reader.repeated (read grammar fuel p) fuel c
    | .maybe p => some ((read grammar fuel p c).getD ([], c))
    | .ahead p => (read grammar fuel p c).map fun _ => ([], c)
    | .lacks p => if (read grammar fuel p c).isSome then none else some ([], c)
    | .node kind p => Reader.node kind (read grammar fuel p) c
    | .role r p => (read grammar fuel p c).map fun (nodes, c') => (Reader.withRole r nodes, c')
    | .ofKind kinds p =>
      (read grammar fuel p c).filter fun (nodes, _) => (Reader.lastKind? nodes).any kinds.contains
    | .chain base growths =>
      let (comments, start) := c.skip
      (read grammar fuel base start).map fun (nodes, c') =>
        let growths := growths.map fun g => g.map (read grammar fuel)
        let (nodes', c'') := Reader.grow growths start fuel nodes c'
        (comments ++ nodes', c'')
    | .goesOn => if c.isOver then none else some ([], c)
    | .semicolon => Reader.semicolon c.afterValue fuel c
    | .last value p =>
      (read grammar fuel p { c with ending := some value }).map fun (nodes, c') =>
        (nodes, { c' with ending := c.ending, afterValue := value })
    | .closed p =>
      (read grammar fuel p { c with ending := none, plainArrows := false }).map fun (nodes, c') =>
        (nodes, { c' with ending := c.ending, plainArrows := c.plainArrows })
    | .plainArrows p =>
      (read grammar fuel p { c with plainArrows := true }).map fun (nodes, c') =>
        (nodes, { c' with plainArrows := c.plainArrows })
    | .arrowTypes => if c.plainArrows then none else some ([], c)

end Pattern

end Restyle.Tsx
