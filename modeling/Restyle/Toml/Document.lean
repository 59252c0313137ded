import Restyle.Toml.Scalar

/-!
# Settings files

A TOML document is a list of statements: pairs of a key and a value, and headers that open a table or a
further entry in a list of tables.  Keys are paths.  A document in which two statements claim the same
place is rejected as a whole.
-/

namespace Restyle.Toml

/-- The entries of a table in order. -/
abbrev Fields := List (String × Data)

/-- A path of keys. -/
abbrev KeyPath := List String

/-! ## Places in a document -/

/--
Changes the table at a path.  Tables on the way are made when they are missing; a list of tables stands
for its last one where that is allowed, and any other value is in the way.
-/
def updateAt (throughLists : Bool) (change : Fields → Option Fields) :
    KeyPath → Fields → Option Fields
  | [], fields => change fields
  | key :: path, fields =>
    match Data.field? fields key with
    | none => (updateAt throughLists change path []).map fun inner => fields ++ [(key, .obj inner)]
    | some (.obj inner) =>
      (updateAt throughLists change path inner).map fun inner =>
        Data.setField fields key (.obj inner)
    | some (.list items) =>
      match throughLists, items.getLast? with
      | true, some (.obj inner) =>
        (updateAt throughLists change path inner).map fun inner =>
          Data.setField fields key (.list (items.dropLast ++ [.obj inner]))
      | _, _ => none
    | some _ => none

/-- Adds an entry that is not there yet. -/
def addNew (key : String) (value : Data) (fields : Fields) : Option Fields :=
  if (Data.field? fields key).isSome then none else some (fields ++ [(key, value)])

/-- Adds a table to a list of tables. -/
def addTable (key : String) (fields : Fields) : Option Fields :=
  match Data.field? fields key with
  | none => some (fields ++ [(key, .list [.obj []])])
  | some (.list items) => some (Data.setField fields key (.list (items ++ [.obj []])))
  | some _ => none

/-! ## Values -/

/-- Skips a comment; control characters in it are not allowed. -/
def skipComment : List Char → Option (List Char)
  | '#' :: cs =>
    let body := cs.takeWhile (· != '\n')
    if body.any fun c => isControl c && c != '\t' then none else some (cs.drop body.length)
  | cs => some cs

/-- Skips blanks, line breaks and comments. -/
def skipLines : Nat → List Char → Option (List Char)
  | 0, cs => some cs
  | n + 1, cs =>
    match cs.dropWhile fun c => isBlank c || c == '\n' with
    | '#' :: rest => (skipComment ('#' :: rest)).bind (skipLines n)
    | rest => some rest

/-- Whether a character may stand in a key without quotes. -/
def isBareKeyChar (c : Char) : Bool :=
  ('a' ≤ c && c ≤ 'z') || ('A' ≤ c && c ≤ 'Z') || ('0' ≤ c && c ≤ '9') || c == '-' || c == '_'

/-- One part of a key. -/
def keyPart? (cs : List Char) : Option (String × List Char) :=
  match cs with
  | '"' :: rest => (lineText? (rest.length + 1) rest).map fun (t, rest) => (String.ofList t, rest)
  | '\'' :: rest => (plainLine? rest).map fun (t, rest) => (String.ofList t, rest)
  | _ =>
    let part := cs.takeWhile isBareKeyChar
    if part.isEmpty then none else some (String.ofList part, cs.drop part.length)

/-- A key with at most `n` parts. -/
def key? : Nat → List Char → Option (KeyPath × List Char)
  | 0, _ => none
  | n + 1, cs => do
    let (part, rest) ← keyPart? cs
    match rest.dropWhile isBlank with
    | '.' :: rest =>
      let (more, rest) ← key? n (rest.dropWhile isBlank)
      return (part :: more, rest)
    | rest => return ([part], rest)

/-- Adds a pair to an inline table; values given in one piece cannot be extended. -/
def addInline (fields : Fields) (closed : List KeyPath) (key : KeyPath) (value : Data) :
    Option (Fields × List KeyPath) := do
  if closed.any fun path => path.isPrefixOf key then none
  let stem ← key.getLast?
  let fields ← updateAt false (addNew stem value) key.dropLast fields
  match value with
  | .obj _ | .list _ => return (fields, key :: closed)
  | _ => return (fields, closed)

mutual

/-- A value, with at most `n` steps to read. -/
def value? : Nat → List Char → Option (Data × List Char)
  | 0, _ => none
  | n + 1, '[' :: cs => do
    let cs ← skipLines cs.length cs
    let (items, rest) ← items? n cs
    return (.list items, rest)
  | n + 1, '{' :: cs =>
    match cs.dropWhile isBlank with
    | '}' :: rest => some (.obj [], rest)
    | cs => do
      let (fields, rest) ← pairs? n [] [] cs
      return (.obj fields, rest)
  | _ + 1, cs => scalar? cs

/-- The items of a list up to its end; a comma may stand after the last one. -/
def items? : Nat → List Char → Option (List Data × List Char)
  | 0, _ => none
  | n + 1, cs =>
    match cs with
    | ']' :: rest => some ([], rest)
    | _ => do
      let (item, rest) ← value? n cs
      match ← skipLines rest.length rest with
      | ']' :: rest => return ([item], rest)
      | ',' :: rest =>
        let rest ← skipLines rest.length rest
        let (items, rest) ← items? n rest
        return (item :: items, rest)
      | _ => none

/-- The pairs of an inline table up to its end. -/
def pairs? : Nat → Fields → List KeyPath → List Char → Option (Fields × List Char)
  | 0, _, _, _ => none
  | n + 1, fields, closed, cs => do
    let (key, value, rest) ← pair? n cs
    let (fields, closed) ← addInline fields closed key value
    match rest.dropWhile isBlank with
    | '}' :: rest => return (fields, rest)
    | ',' :: rest => pairs? n fields closed (rest.dropWhile isBlank)
    | _ => none

/-- A key, an equals sign and a value. -/
def pair? : Nat → List Char → Option (KeyPath × Data × List Char)
  | 0, _ => none
  | n + 1, cs => do
    let (key, rest) ← key? cs.length cs
    match rest with
    | '=' :: rest =>
      let (value, rest) ← value? n (rest.dropWhile isBlank)
      return (key, value, rest)
    | _ => none

end

/-! ## Statements -/

/-- A statement of a document. -/
inductive Statement where
  | pair (key : KeyPath) (value : Data)
  | table (key : KeyPath)
  | entry (key : KeyPath)

/-- A statement. -/
def statement? (cs : List Char) : Option (Statement × List Char) :=
  match cs with
  | '[' :: '[' :: cs => do
    let (key, rest) ← key? (cs.length + 1) (cs.dropWhile isBlank)
    match rest with
    | ']' :: ']' :: rest => return (.entry key, rest)
    | _ => none
  | '[' :: cs => do
    let (key, rest) ← key? (cs.length + 1) (cs.dropWhile isBlank)
    match rest with
    | ']' :: rest => return (.table key, rest)
    | _ => none
  | _ => (pair? (2 * cs.length + 2) cs).map fun (key, value, rest) => (.pair key value, rest)

/-- What follows a statement: blanks, a comment and the end of the line. -/
def endLine? (cs : List Char) : Option (List Char) := do
  match ← skipComment (cs.dropWhile isBlank) with
  | [] => some []
  | '\n' :: rest => some rest
  | _ => none

/-- The statements of a document, with at most `n` lines to read. -/
def statements? : Nat → List Char → Option (List Statement)
  | 0, _ => none
  | n + 1, cs =>
    match cs.dropWhile isBlank with
    | [] => some []
    | '\n' :: rest => statements? n rest
    | '#' :: rest => (skipComment ('#' :: rest)).bind (statements? n)
    | cs => do
      let (s, rest) ← statement? cs
      let rest ← endLine? rest
      return s :: (← statements? n rest)

/-! ## Assembly -/

/-- A document under construction. -/
structure Builder where
  fields : Fields := []
  /-- The table that pairs go to. -/
  header : KeyPath := []
  /-- Tables that have been opened. -/
  opened : List KeyPath := []
  /-- Tables that pairs of the current table have gone through. -/
  passed : List KeyPath := []
  /-- Values given in one piece, which cannot be extended. -/
  closed : List KeyPath := []

namespace Builder

/-- Whether a place lies in a value given in one piece. -/
def isClosed (b : Builder) (key : KeyPath) : Bool :=
  b.closed.any fun path => path.isPrefixOf key

/-- Leaves the current table. -/
def leave (b : Builder) : Builder :=
  { b with opened := b.passed ++ b.opened, passed := [] }

/-- Opens a table, which must not have been opened before. -/
def openTable (b : Builder) (key : KeyPath) : Option Builder := do
  let b := b.leave
  if b.opened.contains key || b.isClosed key then none
  let fields ← updateAt true some key b.fields
  return { b with fields, header := key, opened := key :: b.opened }

/-- Opens a further table in a list of tables; what was said below the list is forgotten. -/
def openEntry (b : Builder) (key : KeyPath) : Option Builder := do
  let b := b.leave
  if b.isClosed key then none
  let stem ← key.getLast?
  let fields ← updateAt true (addTable stem) key.dropLast b.fields
  let outside := fun path => !key.isPrefixOf path
  return { b with
    fields, header := key
    opened := key :: b.opened.filter outside, closed := b.closed.filter outside }

/-- Adds a pair to the current table. -/
def addPair (b : Builder) (key : KeyPath) (value : Data) : Option Builder := do
  let stem ← key.getLast?
  let parent := b.header ++ key.dropLast
  let way := (List.range (key.length - 1)).map fun i => b.header ++ key.take (i + 1)
  if way.any fun path => b.opened.contains path then none
  if b.isClosed parent then none
  let fields ← updateAt true (addNew stem value) parent b.fields
  let b := { b with fields, passed := way ++ b.passed }
  match value with
  | .obj _ | .list _ => return { b with closed := (b.header ++ key) :: b.closed }
  | _ => return b

/-- Takes a statement into account. -/
def add (b : Builder) : Statement → Option Builder
  | .pair key value => b.addPair key value
  | .table key => b.openTable key
  | .entry key => b.openEntry key

end Builder

/-- Reads a document. -/
def read? (text : String) : Option Data := do
  let cs := (Text.replace "\r\n" "\n" text).toList
  let statements ← statements? (cs.length + 1) cs
  let b ← statements.foldlM Builder.add {}
  return .obj b.fields

end Restyle.Toml
