import Restyle.Text.Blank
import Restyle.Text.Bytes

/-!
# Type arguments of tags

The type arguments between a template tag and its template are no part of the grammar of expressions.
They are found by their brackets alone, blanked out before the module is read, and kept under the
offset of the template.  Every reader gives back an end of the text that it is given, so a search that
goes on behind what has been read comes to an end.
-/

namespace Restyle.Module

/-- Type arguments in their brackets, and the template that follows them. -/
structure TypeSpan where
  start : Nat
  stop : Nat
  template : Nat
  deriving DecidableEq, Repr

namespace TypeSpan

/-- The byte of an ASCII character. -/
def byte (c : Char) : UInt8 := c.toNat.toUInt8

/-- The bytes of blanks between the parts of a tag. -/
def isGap (b : UInt8) : Bool :=
  b == 0x20 || b == 0x09 || b == 0x0D || b == 0x0A

/-- Bytes of letters, digits and the underscore. -/
def isWordByte (b : UInt8) : Bool :=
  (byte 'a' ≤ b && b ≤ byte 'z') || (byte 'A' ≤ b && b ≤ byte 'Z') ||
    (byte '0' ≤ b && b ≤ byte '9') || b == byte '_'

/-- Bytes that continue a name. -/
def isNameByte (b : UInt8) : Bool :=
  isWordByte b || b == byte '$'

/-- Bytes of quotes. -/
def isQuote (b : UInt8) : Bool :=
  b == byte '\'' || b == byte '"' || b == byte '\x60'

/-- The bracket that closes an opening one. -/
def closing? (b : UInt8) : Option UInt8 :=
  if b == byte '(' then some (byte ')')
  else if b == byte '[' then some (byte ']')
  else if b == byte '{' then some (byte '}')
  else none

/-- Bytes of closing brackets. -/
def isClosing (b : UInt8) : Bool :=
  b == byte ')' || b == byte ']' || b == byte '}'

/-- What is left of a text when a part at its front has been read. -/
abbrev Rest (bs : List UInt8) : Type := { rest : List UInt8 // rest <:+ bs }

namespace Rest

variable {bs : List UInt8}

/-- Nothing has been read. -/
def all (bs : List UInt8) : Rest bs := ⟨bs, List.suffix_rfl⟩

/-- Everything has been read. -/
def nothing (bs : List UInt8) : Rest bs := ⟨[], List.nil_suffix⟩

/-- Some bytes have been read. -/
def drop (n : Nat) (bs : List UInt8) : Rest bs := ⟨bs.drop n, List.drop_suffix n bs⟩

/-- All bytes of a kind have been read. -/
def dropWhile (p : UInt8 → Bool) (bs : List UInt8) : Rest bs := ⟨bs.dropWhile p, List.dropWhile_suffix p⟩

/-- A byte has been read ahead of the rest. -/
def behind (b : UInt8) (r : Rest bs) : Rest (b :: bs) := ⟨r.1, r.2.trans (List.suffix_cons b bs)⟩

/-- What is left of a rest. -/
def andThen (r : Rest bs) (s : Rest r.1) : Rest bs := ⟨s.1, s.2.trans r.2⟩

theorem length_le (r : Rest bs) : r.1.length ≤ bs.length := r.2.length_le

/-- What is left behind a byte is shorter than the text that starts with it. -/
theorem length_lt (r : Rest bs) (b : UInt8) : r.1.length < (b :: bs).length :=
  Nat.lt_succ_of_le r.length_le

end Rest

/-- The rest after blanks. -/
def dropGap (bs : List UInt8) : Rest bs := .dropWhile isGap bs

/-- The rest after the end of a block comment. -/
def dropBlockComment : (bs : List UInt8) → Rest bs
  | [] => .all []
  | b :: bs =>
    if b == byte '*' && bs.head? == some (byte '/') then .behind b (.drop 1 bs)
    else .behind b (dropBlockComment bs)

/-- The rest after a comment that starts with the byte `first`; the end of a line comment is left. -/
def dropComment? (first : UInt8) : (bs : List UInt8) → Option (Rest bs)
  | [] => none
  | b :: bs =>
    if first == byte '/' && b == byte '/' then some (.behind b (.dropWhile (· != Text.lineBreak) bs))
    else if first == byte '/' && b == byte '*' then some (.behind b (dropBlockComment bs))
    else none

mutual

/-- The rest after a string or template whose opening quote has been read. -/
def dropString (quote : UInt8) : (bs : List UInt8) → Rest bs
  | [] => .all []
  | b :: bs =>
    if b == byte '\\' then
      .behind b ((Rest.drop 1 bs).andThen (dropString quote (Rest.drop 1 bs).1))
    else if b == quote then .behind b (.all bs)
    else if quote == byte '\x60' && b == byte '$' && bs.head? == some (byte '{') then
      match dropGroup? (byte '}') [] (Rest.drop 1 bs).1 with
      | some inner => .behind b ((Rest.drop 1 bs).andThen (inner.andThen (dropString quote inner.1)))
      | none => .nothing (b :: bs)
    else .behind b (dropString quote bs)
termination_by bs => bs.length
decreasing_by
  · exact (Rest.drop 1 bs).length_lt b
  · exact (Rest.drop 1 bs).length_lt b
  · exact Nat.lt_of_le_of_lt inner.length_le ((Rest.drop 1 bs).length_lt b)
  · exact (Rest.all bs).length_lt b

/--
The rest after a group whose opening bracket has been read; `closer` ends the innermost bracket that is
open, and `outer` has the ends of those around it.
-/
def dropGroup? (closer : UInt8) (outer : List UInt8) : (bs : List UInt8) → Option (Rest bs)
  | [] => none
  | b :: bs =>
    match closing? b with
    | some c => (dropGroup? c (closer :: outer) bs).map (.behind b)
    | none =>
      if isClosing b then
        if b != closer then none
        else
          match outer with
          | [] => some (.behind b (.all bs))
          | next :: outer => (dropGroup? next outer bs).map (.behind b)
      else if isQuote b then
        match dropString b bs with
        | ⟨inner, shorter⟩ =>
          (dropGroup? closer outer inner).map fun rest => .behind b (Rest.andThen ⟨inner, shorter⟩ rest)
      else
        match dropComment? b bs with
        | some inner => (dropGroup? closer outer inner.1).map fun rest => .behind b (inner.andThen rest)
        | none => (dropGroup? closer outer bs).map (.behind b)
termination_by bs => bs.length
decreasing_by
  · exact (Rest.all bs).length_lt b
  · exact (Rest.all bs).length_lt b
  · exact (Rest.all bs).length_lt b
  · exact Nat.lt_succ_of_le shorter.length_le
  · exact inner.length_lt b
  · exact (Rest.all bs).length_lt b

end

/--
The rest after type arguments in which `depth` brackets are open; `last` is the byte before, and an arrow
closes nothing.
-/
def dropAngles? (depth : Nat) (last : Option UInt8) : (bs : List UInt8) → Option (Rest bs)
  | [] => none
  | b :: bs =>
    if b == byte '<' then (dropAngles? (depth + 1) (some b) bs).map (.behind b)
    else if b == byte '>' then
      if last == some (byte '=') then (dropAngles? depth (some b) bs).map (.behind b)
      else if depth ≤ 1 then some (.behind b (.all bs))
      else (dropAngles? (depth - 1) (some b) bs).map (.behind b)
    else
      match closing? b with
      | some c =>
        match dropGroup? c [] bs with
        | some inner => (dropAngles? depth none inner.1).map fun rest => .behind b (inner.andThen rest)
        | none => none
      | none =>
        if b == byte '\'' || b == byte '"' then
          (dropAngles? depth none (dropString b bs).1).map fun rest => .behind b ((dropString b bs).andThen rest)
        else if isClosing b || b == byte ';' || b == byte '\x60' then none
        else (dropAngles? depth (some b) bs).map (.behind b)
termination_by bs => bs.length
decreasing_by
  · exact (Rest.all bs).length_lt b
  · exact (Rest.all bs).length_lt b
  · exact (Rest.all bs).length_lt b
  · exact inner.length_lt b
  · exact (dropString b bs).length_lt b
  · exact (Rest.all bs).length_lt b

/-- The rest after a name. -/
def dropName? : (bs : List UInt8) → Option (Rest bs)
  | [] => none
  | b :: bs =>
    if isNameByte b && !(byte '0' ≤ b && b ≤ byte '9') then some (.behind b (.dropWhile isNameByte bs))
    else none

/-- Type arguments that have been found, by what is left of the text at three places. -/
structure Found (bs : List UInt8) where
  /-- From the opening bracket on. -/
  opened : Rest bs
  /-- Behind the closing bracket. -/
  after : Rest opened.1
  /-- From the template on. -/
  template : Rest after.1

/-- The offsets of what has been found, in a text of a size whose end it is found in. -/
def Found.span {bs : List UInt8} (size : Nat) (found : Found bs) : TypeSpan where
  start := size - found.opened.1.length
  stop := size - found.after.1.length
  template := size - found.template.1.length

/-- What has been found in a rest. -/
def Rest.found {bs : List UInt8} (r : Rest bs) (f : Found r.1) : Found bs where
  opened := r.andThen f.opened
  after := f.after
  template := f.template

/-- The type arguments at the end of a chain of accesses and calls. -/
def afterChain? : (bs : List UInt8) → Option (Found bs)
  | [] => none
  | b :: bs =>
    if isGap b then (afterChain? bs).map (Rest.behind b (.all bs)).found
    else if b == byte '.' then
      match dropName? (dropGap bs).1 with
      | some rest => (afterChain? rest.1).map (Rest.behind b ((dropGap bs).andThen rest)).found
      | none => none
    else if b == byte '(' then
      match dropGroup? (byte ')') [] bs with
      | some rest => (afterChain? rest.1).map (Rest.behind b rest).found
      | none => none
    else if b == byte '<' then
      match dropAngles? 1 (some b) bs with
      | some rest =>
        if (dropGap rest.1).1.head? == some (byte '\x60') then
          some { opened := .all (b :: bs), after := .behind b rest, template := dropGap rest.1 }
        else (afterChain? rest.1).map (Rest.behind b rest).found
      | none => none
    else none
termination_by bs => bs.length
decreasing_by
  · exact (Rest.all bs).length_lt b
  · exact ((dropGap bs).andThen rest).length_lt b
  · exact rest.length_lt b
  · exact rest.length_lt b

/-- The length of the first of some names that starts a text and ends there. -/
def tagLength? (names : List (List UInt8)) (bs : List UInt8) : Option Nat :=
  names.findSome? fun name =>
    if name.isPrefixOf bs && !((bs.drop name.length).head?.any isNameByte) then some name.length else none

/--
All type arguments in a text, whose whole size is given; `last` is the byte before, and `skip` counts the
bytes of a tag that are still to be passed.
-/
def findFrom (names : List (List UInt8)) (size : Nat) (last : Option UInt8) :
    Nat → List UInt8 → List TypeSpan
  | _, [] => []
  | skip + 1, b :: bs => findFrom names size (some b) skip bs
  | 0, b :: bs =>
    let free := !last.any fun p => isNameByte p || p == byte '.'
    match if free then tagLength? names (b :: bs) else none with
    | none => findFrom names size (some b) 0 bs
    | some length =>
      let more := findFrom names size (some b) (length - 1) bs
      match afterChain? ((b :: bs).drop length) with
      | some found => found.span size :: more
      | none => more

/-- The type arguments between the given tags and their templates. -/
def findAll (source : List UInt8) (tags : List String) : List TypeSpan :=
  let names := ((tags.filter fun t => !t.isEmpty).mergeSort fun a b => a ≤ b).map Text.encode
  if names.isEmpty then []
  else findFrom names source.length none 0 source

/-- Overwrites type arguments with spaces; line breaks stay. -/
def blank (source : List UInt8) (spans : List TypeSpan) : List UInt8 :=
  source.mapIdx fun i b =>
    if b != 0x0A && b != 0x0D && spans.any (fun s => s.start ≤ i && i < s.stop) then 0x20 else b

/-- The text of type arguments without their brackets. -/
def text (source : List UInt8) (span : TypeSpan) : String :=
  Text.strip ((Text.decode? (Text.sliceBytes source (span.start + 1) (span.stop - 1))).getD "")

end TypeSpan

end Restyle.Module
